import Apidoc.Proofs.Build.Pass
import Apidoc.Proofs.Files.Tree

/-!
# `Apidoc.Proofs.Build.Callbacks`: what a visitor is told, and when

A pass reads all of its files before it calls the visitor. `calls_of_run` is the main
fact, for any visitor and any files. If some file cannot be read, the first such file is
the reason why the pass fails, and the visitor is not called. Otherwise the visitor is
told the environment, then each thing to visit in order, then the end (`protocol`). It is
told nothing after a call at which it fails.

The calls are observed with a visitor that notes each call before it answers
(`Visitor.recorded`). Its answers and its state are those of the visitor itself.

A path that holds the character NUL names no file, but it is not reported as a source
file that cannot be read (`run_of_null_path`).
-/

set_option autoImplicit false

namespace Apidoc.Build

open Apidoc.Build.Collector (visitsOf wantedPaths)
open Apidoc.Build.Environment (Readable declaredTypes)
open Apidoc.Files (Fault FileError Path Tree)
open Apidoc.Proofs (exec exec_bind exec_bind_ok)

/-! ### The calls of a pass -/

/-- A call to a visitor. -/
inductive Call where
  | prepare (e : Environment)
  | process (v : Visited)
  | complete

/-- The calls of a pass that nothing interrupts. -/
def Environment.protocol (e : Environment) : List Call :=
  .prepare e :: e.specified.map .process ++ [.complete]

namespace Visitor

variable {σ : Type}

/-- What a visitor does when it is called. -/
def answer (v : Visitor σ) : Call → Visit σ Unit
  | .prepare e => v.prepare e
  | .process x => v.process x
  | .complete => v.complete

/-- Notes a call, and answers it as the visitor does. -/
def note (v : Visitor σ) (c : Call) : Visit (σ × List Call) Unit := fun (s, calls) =>
  let (result, s') := exec (v.answer c) s
  (result, (s', calls ++ [c]))

/-- The visitor with a record of the calls that it gets. -/
def recorded (v : Visitor σ) : Visitor (σ × List Call) where
  prepare e := v.note (.prepare e)
  process x := v.note (.process x)
  complete := v.note .complete

theorem answer_recorded (v : Visitor σ) : v.recorded.answer = v.note := by
  funext c
  cases c <;> rfl

/-- How calls one after the other end. Either the visitor answers all of them, or it fails at one and
gets none of those after it. -/
inductive Ends (v : Visitor σ) (cs : List Call) (s : σ) :
    List Call → Except Failure Unit → σ → Prop
  | answered {s' : σ} (h : exec (cs.forM v.answer) s = (.ok (), s')) : Ends v cs s cs (.ok ()) s'
  | failed {front back : List Call} {c : Call} {t s' : σ} {failure : Failure}
      (hcs : cs = front ++ c :: back) (hfront : exec (front.forM v.answer) s = (.ok (), t))
      (hc : exec (v.answer c) t = (.error failure, s')) :
      Ends v cs s (front ++ [c]) (.error failure) s'

/-- Calls one after the other are noted up to the one at which the visitor fails. -/
theorem ends_forM_note (v : Visitor σ) (cs : List Call) (s : σ) (before : List Call) :
    ∃ calls result s', exec (cs.forM v.note) (s, before) = (result, (s', before ++ calls)) ∧
      exec (cs.forM v.answer) s = (result, s') ∧ Ends v cs s calls result s' := by
  -- Calls are noted behind those noted before, so these are any calls.
  induction cs generalizing s before with
  | nil => exact ⟨[], .ok (), s, by rw [List.append_nil]; rfl, rfl, .answered rfl⟩
  | cons c rest ih =>
    have hanswers (calls : List Call) : exec ((c :: calls).forM v.answer) s =
        exec (v.answer c >>= fun _ => calls.forM v.answer) s := rfl
    rcases hc : exec (v.answer c) s with ⟨failure | _, t⟩
    · have hnote : exec (v.note c) (s, before) = (.error failure, (t, before ++ [c])) := by
        show (let (result, s') := exec (v.answer c) s; (result, (s', before ++ [c]))) = _
        rw [hc]
      have hends : Ends v (c :: rest) s ([] ++ [c]) (.error failure) t := .failed rfl rfl hc
      refine ⟨[c], .error failure, t, ?_, ?_, hends⟩
      · show exec (v.note c >>= fun _ => rest.forM v.note) (s, before) = _
        rw [exec_bind, hnote]
      · rw [hanswers, exec_bind, hc]
    · have hnote : exec (v.note c) (s, before) = (.ok (), (t, before ++ [c])) := by
        show (let (result, s') := exec (v.answer c) s; (result, (s', before ++ [c]))) = _
        rw [hc]
      obtain ⟨calls, result, s', hrest, hsame, hends⟩ := ih t (before ++ [c])
      refine ⟨c :: calls, result, s', ?_, by rw [hanswers, exec_bind_ok hc, hsame], ?_⟩
      · show exec (v.note c >>= fun _ => rest.forM v.note) (s, before) = _
        rw [exec_bind_ok hnote, hrest, List.append_assoc, List.singleton_append]
      · cases hends with
        | answered h => exact .answered (by rw [hanswers, exec_bind_ok hc, h])
        | failed hcs hfront hfails =>
          exact .failed (congrArg (c :: ·) hcs) (by rw [hanswers, exec_bind_ok hc, hfront]) hfails

variable {files : Tree} {paths : List Path} {specified : Option (List Path)}

/-- After reading, a pass makes the calls of its environment one after the other. -/
theorem run_eq_protocol {e : Environment} (v : Visitor σ)
    (h : Environment.read files paths specified = .ok e) :
    v.run files paths specified = (e.protocol.forM v.answer >>= fun _ => pure e) := by
  have hprotocol : e.protocol.forM v.answer =
      (v.prepare e >>= fun _ => e.specified.forM v.process >>= fun _ => v.complete) := by
    show (v.prepare e >>= fun _ =>
        (e.specified.map Call.process ++ [Call.complete]).forM v.answer) = _
    simp [List.forM_eq_forM, answer]
  rw [hprotocol, run_of_read v h]
  simp only [bind_assoc]

end Visitor

/-! ### Files that cannot be read -/

/-- A file that cannot be read is reported by its path, unless the path holds the character NUL. -/
theorem ofRead_of_read {files : Tree} {path : Path} {error : FileError}
    (h : files.read path = .error error) :
    Failure.ofRead error =
      if '\x00' ∈ path.toString.toList then .file { fault := .nullCharacter, path }
      else .unreadable path (some error.message) := by
  obtain ⟨herror, hnull⟩ := Tree.read_error h
  rw [Failure.ofRead]
  by_cases hpath : '\x00' ∈ path.toString.toList
  · rw [if_pos hpath, if_pos (hnull.mpr hpath), herror, hnull.mpr hpath]
  · rw [if_neg hpath, if_neg (mt hnull.mp hpath), herror]

/-! ### A whole pass -/

/-- An environment that is made of all of the files. -/
structure Environment.MadeOf (files : Tree) (paths : List Path) (specified : Option (List Path))
    (e : Environment) : Prop where
  /-- A name is that of its first declaration in any of the files, at any nesting level. -/
  known : ∀ name, e.index.get? name =
    (declaredTypes files paths).find? fun l => l.declaration.qualifiedName = name
  /-- What is visited are the modules, packages and types at the top of the wanted files. -/
  visited : e.specified = visitsOf files (wantedPaths paths specified)

/-- If every file can be read, an environment is made of them. -/
theorem exists_madeOf {files : Tree} {paths : List Path} (h : Readable files paths)
    (specified : Option (List Path)) :
    ∃ e, Environment.read files paths specified = .ok e ∧ e.MadeOf files paths specified := by
  refine ⟨_, Environment.read_of_readable h specified, ⟨fun name => ?_, ?_⟩⟩
  · rw [Environment.index_ofPaths]
    exact Model.Index.get?_addAll _ name
  · rw [Environment.specified_ofPaths]
    exact List.nil_append _

/-- A pass either fails at the first file that cannot be read, and does not call the visitor, or it
makes the calls of an environment that is made of all of the files, up to one at which the visitor
fails. It gives back the environment that the visitor was told. Noting the calls changes nothing. -/
theorem Visitor.calls_of_run {σ : Type} (v : Visitor σ) (files : Tree) (paths : List Path)
    (specified : Option (List Path)) (s : σ) :
    ∃ calls result s',
      exec (v.recorded.run files paths specified) (s, []) = (result, (s', calls)) ∧
      exec (v.run files paths specified) s = (result, s') ∧
      ((∃ front path back error, paths = front ++ path :: back ∧ Readable files front ∧
          files.read path = .error error ∧
          result = .error (if '\x00' ∈ path.toString.toList then
              .file { fault := .nullCharacter, path }
            else .unreadable path (some error.message)) ∧
          s' = s ∧ calls = []) ∨
        (Readable files paths ∧ ∃ e : Environment, e.MadeOf files paths specified ∧
          ∃ ending, v.Ends e.protocol s calls ending s' ∧ result = ending.map fun _ => e)) := by
  by_cases hreadable : Readable files paths
  · -- The visitor alone decides how far the calls go.
    obtain ⟨e, hread, hmade⟩ := exists_madeOf hreadable specified
    obtain ⟨calls, ending, s', hnotes, hanswers, hends⟩ := v.ends_forM_note e.protocol s []
    refine ⟨calls, ending.map fun _ => e, s', ?_, ?_,
      .inr ⟨hreadable, e, hmade, ending, hends, rfl⟩⟩
    · rw [run_eq_protocol v.recorded hread, answer_recorded, exec_bind, hnotes]
      cases ending <;> rfl
    · rw [run_eq_protocol v hread, exec_bind, hanswers]
      cases ending <;> rfl
  · -- Reading ends before the first call.
    obtain ⟨front, path, back, error, rfl, hfront, hpath⟩ := Environment.exists_first_unreadable hreadable
    have hread : Environment.read files (front ++ path :: back) specified =
        .error (.ofRead error) := Environment.read_of_first_unreadable hfront hpath specified
    refine ⟨[], .error (.ofRead error), s, ?_, ?_, .inl ⟨front, path, back, error, rfl, hfront,
      hpath, congrArg _ (ofRead_of_read hpath), rfl, rfl⟩⟩
    · rw [run_of_unread _ hread]
      rfl
    · rw [run_of_unread _ hread]
      rfl

/-- A visitor that does nothing. -/
def Visitor.idle : Visitor Unit := ⟨fun _ => pure (), fun _ => pure (), pure ()⟩

/-- A path with the character NUL. -/
def nullPath : Path := .ofString "a\x00.java"

/-- A file at a path with the character NUL cannot be read. The visitor is not called, but the pass
does not fail with a source file that cannot be read. -/
theorem run_of_null_path :
    ¬ Readable ⟨[], []⟩ [nullPath] ∧
      ∃ failure, exec (Visitor.idle.recorded.run ⟨[], []⟩ [nullPath] none) ((), []) =
          (.error failure, ((), [])) ∧
        ∀ path cause, failure ≠ .unreadable path cause :=
  ⟨by decide, .file { fault := .nullCharacter, path := nullPath }, rfl, nofun⟩

end Apidoc.Build
