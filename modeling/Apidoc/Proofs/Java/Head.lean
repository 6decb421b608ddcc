import Apidoc.Proofs.Java.Lookahead
import Apidoc.Proofs.Java.Name
import Apidoc.Proofs.Java.Reading
import Apidoc.Proofs.Java.Tree

/-!
# `Apidoc.Proofs.Java.Head`: where the heads of declarations stand

Every declaration that a source is read for, however deep its type is nested, reaches from the
first token of a tree to a token of it or of its siblings behind it. Types and methods are called
by a word of the source (`everywhere_items`), so there is no dot in their names
(`plain_of_isWordText`). Only a class extends a class.
-/

set_option autoImplicit false

namespace Apidoc.Java

namespace Reader

open Apidoc.Java.Item Apidoc.Java.Measure
open Apidoc.Java.Tree (Tail tokensAll)

variable {forest ts : List Tree} {t : Tree} {rest : List Tree}

/-- The span reaches from a tree to a token of it or of its siblings behind it. -/
def Reaches (forest : List Tree) (s : Span) : Prop :=
  ∃ t rest, Tail (t :: rest) forest ∧ s.start = t.start ∧
    ∃ last ∈ tokensAll (t :: rest), s.stop = last.piece.stop

/-- The text is that of a word among the trees. -/
def IsWordText (forest : List Tree) (text : String) : Prop :=
  ∃ w ∈ tokensAll forest, w.isWord = true ∧ text = Tree.text [.token w]

/-- A run of siblings reaches from its first tree to its last token. -/
theorem reaches_take (hts : Tail ts forest) (hne : ts ≠ []) {n : Nat} (hn : 0 < n) :
    Reaches forest (span (ts.take n)) := by
  obtain ⟨t, rest, rfl⟩ := List.exists_cons_of_ne_nil hne
  obtain ⟨m, rfl⟩ := Nat.exists_eq_succ_of_ne_zero hn.ne'
  rw [List.take_succ_cons]
  obtain ⟨last, hlast, hspan⟩ := Tree.exists_span t (rest.take m)
  refine ⟨t, rest, hts, by rw [hspan], last, ?_, by rw [hspan]⟩
  rw [← List.take_append_drop m rest, ← List.cons_append, Tree.tokensAll_append]
  exact List.mem_append_left _ hlast

/-- A word among siblings is a word among the trees. -/
theorem isWordText_of_mem (hts : Tail ts forest) (ht : t ∈ ts) (hword : t.isWord = true) :
    IsWordText forest (Tree.text [t]) := by
  cases t with
  | group opening items closing => cases hword
  | token w =>
    exact ⟨w, hts.tokens_subset (Tree.tokens_subset_of_mem ht List.mem_cons_self), hword, rfl⟩

/-- A declaration reaches over trees of the source, and types and methods are called by a word of
it. Other types than classes have no superclass. -/
def HeadStands (forest : List Tree) : Item → Prop
  | .type head _ => Reaches forest head.span ∧ IsWordText forest head.name ∧
    (head.kind ≠ .classType → head.superclass = none)
  | .method head _ => Reaches forest head.span ∧ IsWordText forest head.name
  | .constructor head _ => Reaches forest head.span
  | .field head _ => Reaches forest head.span
  | .constant head _ => Reaches forest head.span
  | _ => True

/-- Trees are cut in front of the first one that has the property, if there is one. -/
theorem takeWhile_cut (p : Tree → Bool) (ts : List Tree) {u : Tree}
    (h : (ts.drop (ts.takeWhile fun t => !p t).length).head? = some u) :
    ∃ after, ts = (ts.takeWhile fun t => !p t) ++ u :: after ∧ p u = true := by
  induction ts with
  | nil => cases h
  | cons t rest ih =>
    cases ht : p t with
    | true =>
      simp only [List.takeWhile_cons, ht, Bool.not_true, Bool.false_eq_true, if_false] at h ⊢
      cases h
      exact ⟨rest, rfl, ht⟩
    | false =>
      simp only [List.takeWhile_cons, ht, Bool.not_false, if_true] at h ⊢
      obtain ⟨after, hrest, hu⟩ := ih h
      exact ⟨after, congrArg (t :: ·) hrest, hu⟩

/-- The head of a type ends in front of the group that is its body. -/
theorem exists_run_of_typeHead? {start n : Nat} {front : List (List Tree)} {head : TypeSyntax}
    {body : List Tree} (h : typeHead? start front ts = some (head, body, n)) :
    ∃ run u after, ts = run ++ u :: after ∧ run ≠ [] ∧ u.isGroup "\x7b" = true ∧ body = u.items ∧
      head.span = ⟨start, u.stop⟩ ∧ n = run.length + 1 := by
  unfold typeHead? at h
  obtain ⟨kind, hkind, h⟩ := Option.bind_eq_some_iff.mp h
  obtain ⟨keyword, name, more, rfl, -⟩ := head_of_typeKind? hkind
  obtain ⟨u, hu, h⟩ := Option.bind_eq_some_iff.mp h
  cases h
  obtain ⟨after, hmore, hgroup⟩ := takeWhile_cut (fun t => t.isGroup "\x7b") more hu
  refine ⟨keyword :: name :: more.takeWhile fun t => !t.isGroup "\x7b", u, after, ?_,
    List.cons_ne_nil _ _, hgroup, rfl, rfl, rfl⟩
  rw [List.cons_append, List.cons_append, ← hmore]

/-- A type whose modifiers begin a list of siblings stands among them. -/
theorem headStands_of_typeHead? (hts : Tail (t :: rest) forest) {m n : Nat}
    {front : List (List Tree)} {head : TypeSyntax} {body : List Tree}
    (h : typeHead? t.start front ((t :: rest).drop m) = some (head, body, n))
    (members : List Item) : HeadStands forest (.type head members) := by
  have hdrop : (t :: rest).drop m ⊆ t :: rest := List.drop_subset m _
  unfold typeHead? at h
  obtain ⟨kind, hkind, h⟩ := Option.bind_eq_some_iff.mp h
  obtain ⟨last, hlast, h⟩ := Option.bind_eq_some_iff.mp h
  have hmem := List.mem_of_mem_drop (List.mem_of_head? hlast)
  cases h
  refine ⟨⟨t, rest, hts, rfl, last.last, ?_, rfl⟩, ?_, fun hclass => if_neg hclass⟩
  · exact Tree.tokens_subset_of_mem (hdrop hmem) (Tree.last_mem_tokens last)
  · obtain ⟨keyword, name, more, hname, hword⟩ := head_of_typeKind? hkind
    rw [hname] at hdrop ⊢
    exact isWordText_of_mem hts (hdrop (by simp)) hword

theorem through_pos (p : Tree → Bool) {ts : List Tree} (h : ts ≠ []) : 0 < through p ts :=
  Nat.lt_min.mpr ⟨List.length_pos_iff.mpr h, Nat.succ_pos _⟩

/-- The span is that of the first so many siblings. -/
def Covers (ts : List Tree) (s : Span) (n : Nat) : Prop :=
  ts ≠ [] ∧ 0 < n ∧ s = span (ts.take n)

theorem Covers.reaches {s : Span} {n : Nat} (h : Covers ts s n) (hts : Tail ts forest) :
    Reaches forest s := by
  obtain ⟨hne, hn, rfl⟩ := h
  exact reaches_take hts hne hn

/-- Members that are no types cover the siblings that are taken for them, and a method is called by
one of these. -/
def ShapeCovers (ts : List Tree) : MemberShape → Prop
  | .constructor head _ n => Covers ts head.span n
  | .method head _ n =>
    Covers ts head.span n ∧ ∃ name ∈ ts, name.isWord = true ∧ head.name = Tree.text [name]
  | .field head _ n => Covers ts head.span n
  | _ => True

theorem shapeCovers_memberShape (kind : Body) (front : List (List Tree)) (ts : List Tree) :
    ShapeCovers ts (memberShape kind front ts) := by
  unfold memberShape
  extract_lets read r n r₁ r₂ m r₃ whole upTo
  -- Behind the modifiers and the type there are only trees of the member.
  have hr : r <:+ ts := List.drop_suffix _ _
  have hr₁ : r₁ <:+ ts := (List.drop_suffix _ _).trans hr
  have hr₃ : r₃ <:+ ts := (List.drop_suffix _ _).trans ((List.drop_suffix _ _).trans hr₁)
  have hcovers : ∀ k, ts ≠ [] → 0 < k → Covers ts (upTo k) k := fun k hne hk => ⟨hne, hk, rfl⟩
  have hwhole : ∀ tail, tail.length < ts.length → 0 < whole tail := fun tail htail =>
    Nat.sub_pos_of_lt htail
  -- Of the parts no more is needed from here on, whichever branch reads them.
  clear_value upTo whole r₃ m r₂ r₁ n r
  split
  · trivial
  · rename_i t rest first second tail
    have hne : ts ≠ [] := List.ne_nil_of_mem (hr.subset List.mem_cons_self)
    have htail : tail.length < ts.length := by
      have hle := hr₁.length_le
      simp only [List.length_cons] at hle
      omega
    split
    · trivial
    split
    · exact hcovers _ hne (Nat.add_pos_left (hwhole tail htail) _)
    split
    · exact hcovers _ hne (hwhole tail htail)
    split
    · rename_i name after
      split
      · rename_i group tail'
        have htail' : tail'.length < ts.length := by
          have hle := hr₃.length_le
          simp only [List.length_cons] at hle
          omega
        split
        · rename_i hmethod
          simp only [Bool.and_eq_true] at hmethod
          exact ⟨hcovers _ hne (Nat.add_pos_left (hwhole tail' htail') _),
            name, hr₃.subset List.mem_cons_self, hmethod.1.2, rfl⟩
        split
        · exact hcovers _ hne (Nat.add_pos_right _ (through_pos _ (List.cons_ne_nil _ _)))
        · trivial
      · trivial
    · trivial
  · split <;> trivial

/-- Members that are no types stand among the siblings that they begin. -/
def ShapeStands (forest : List Tree) : MemberShape → Prop
  | .constructor head _ _ => Reaches forest head.span
  | .method head _ _ => Reaches forest head.span ∧ IsWordText forest head.name
  | .field head _ _ => Reaches forest head.span
  | _ => True

theorem shapeStands_memberShape (hts : Tail ts forest) (kind : Body) (front : List (List Tree)) :
    ShapeStands forest (memberShape kind front ts) := by
  have hcovers := shapeCovers_memberShape kind front ts
  generalize memberShape kind front ts = shape at hcovers ⊢
  cases shape with
  | block body n => trivial
  | constructor head code n => exact hcovers.reaches hts
  | method head code n =>
    obtain ⟨hspan, name, hname, hword, heq⟩ := hcovers
    refine ⟨hspan.reaches hts, ?_⟩
    rw [heq]
    exact isWordText_of_mem hts hname hword
  | field head code n => exact hcovers.reaches hts
  | unknown n => trivial

/-- A constant covers the siblings that are taken for it. -/
theorem covers_constantShape (hne : ts ≠ []) :
    Covers ts (constantShape ts).1.span (constantShape ts).2.2.2 :=
  ⟨hne, Nat.add_pos_left (Nat.add_pos_left (Nat.succ_pos _) _) _, rfl⟩

/-- A constant stands among the siblings that it begins. -/
theorem reaches_constantShape (hts : Tail ts forest) (hne : ts ≠ []) :
    Reaches forest (constantShape ts).1.span :=
  (covers_constantShape hne).reaches hts

theorem everywhereAll_commentItems (t : Tree) :
    EverywhereAll (HeadStands forest) (commentItems t) := by
  rw [commentItems]
  induction t.comments with
  | nil => trivial
  | cons p ps ih => exact ⟨trivial, ih⟩

/-- The declarations that are read from a body stand among the trees. -/
theorem everywhere_bodyItems (fuel : Nat) (kind : Body) (hts : Tail ts forest) :
    EverywhereAll (HeadStands forest) (bodyItems fuel kind ts) := by
  induction fuel generalizing kind ts with
  | zero =>
    rw [bodyItems_zero]
    trivial
  | succ fuel ih =>
    cases ts with
    | nil =>
      rw [bodyItems_nil]
      trivial
    | cons t rest =>
      have hcomments : EverywhereAll (HeadStands forest) (commentItems t) :=
        everywhereAll_commentItems t
      have hitem : ∀ item n, Everywhere (HeadStands forest) item →
          EverywhereAll (HeadStands forest)
            (commentItems t ++ item :: bodyItems fuel kind (rest.drop n)) := fun item n hitem =>
        everywhereAll_append.mpr ⟨hcomments, hitem, ih kind (hts.drop_rest n)⟩
      have hshape := shapeStands_memberShape hts kind (many modifier (t :: rest))
      have hstep := bodyStep fuel kind t rest
      generalize bodyItems (fuel + 1) kind (t :: rest) = items at hstep ⊢
      cases hstep with
      | skip => exact everywhereAll_append.mpr ⟨hcomments, ih kind (hts.drop_rest 0)⟩
      | rest => exact everywhereAll_append.mpr ⟨hcomments, ih .members (hts.drop_rest 0), trivial⟩
      | constant hkind hconstant =>
        have hreaches := reaches_constantShape hts (List.cons_ne_nil t rest)
        rw [hconstant] at hreaches
        exact hitem _ _ hreaches
      | type hkind hhead =>
        -- The body of a type is the inside of a group among these siblings.
        obtain ⟨u, hu, rfl⟩ := body_of_typeHead? hhead
        exact hitem _ _ ⟨headStands_of_typeHead? hts hhead _,
          ih _ ((Tail.items (List.mem_of_mem_drop hu)).trans hts)⟩
      | block | unknown => exact hitem _ _ trivial
      | constructor hkind hmember | method hkind hmember | field hkind hmember =>
        rw [hmember] at hshape
        exact hitem _ _ hshape

/-- The first item of a unit stands among the trees, with all that is declared in it. -/
theorem everywhere_unitItem (hts : Tail (t :: rest) forest) :
    Everywhere (HeadStands forest) (unitItem t rest).1 := by
  have hstep := unitStep t rest
  generalize unitItem t rest = item at hstep ⊢
  cases hstep with
  | package | imported | module | code => trivial
  | type hhead =>
    obtain ⟨u, hu, rfl⟩ := body_of_typeHead? hhead
    exact ⟨headStands_of_typeHead? hts hhead _,
      everywhere_bodyItems _ _ ((Tail.items (List.mem_of_mem_drop hu)).trans hts)⟩
  | method hmember =>
    have hshape := shapeStands_memberShape hts .members (many modifier (t :: rest))
    rw [hmember] at hshape
    exact hshape

theorem everywhere_unitItems (fuel : Nat) (ts : List Tree) :
    Tail ts forest → EverywhereAll (HeadStands forest) (unitItems fuel ts) := by
  refine unitItems_induction
    (P := fun ts items => Tail ts forest → EverywhereAll (HeadStands forest) items) ?_ ?_ ?_ fuel ts
  · exact fun _ _ => trivial
  · intro t rest items ih hts
    exact everywhereAll_append.mpr ⟨everywhereAll_commentItems t, ih (hts.drop_rest 0)⟩
  · intro t rest items ih hts
    exact everywhereAll_append.mpr
      ⟨everywhereAll_commentItems t, everywhere_unitItem hts, ih (hts.drop_rest _)⟩

/-- All declarations of a source stand among its trees. -/
theorem everywhere_items (source : Text.Bytes) :
    EverywhereAll (HeadStands (Tree.ofSource source)) (items source) :=
  everywhere_unitItems _ _ .here

/-- A word of a source is not empty, and there is neither a dot nor a number sign in it. -/
theorem plain_of_isWordText {source : Text.Bytes} {text : String}
    (h : IsWordText (Tree.ofSource source) text) :
    text.toList ≠ [] ∧ '.' ∉ text.toList ∧ '#' ∉ text.toList := by
  obtain ⟨w, hw, hword, rfl⟩ := h
  have hkind : w.piece.kind = .word := of_decide_eq_true hword
  obtain ⟨-, hfits⟩ := Lexer.standsIn_of_mem_pieces (Tree.piece_mem_of_mem_tokens hw).1
    (by rw [hkind]; nofun)
  rw [hkind] at hfits
  have htext : (Tree.text [.token w]).toList = Text.decode w.piece.text := by
    have hpieces : (Tree.piecesAll [.token w]).drop w.before.length = [w.piece] := by
      rw [Tree.piecesAll, Tree.piecesAll, Tree.pieces, List.append_nil, List.drop_left]
    show (Text.decodeString
      (((Tree.piecesAll [.token w]).drop w.before.length).flatMap Piece.text)).toList = _
    rw [hpieces, List.flatMap_singleton, Text.decodeString, String.toList_ofList]
  rw [htext]
  refine ⟨Text.decode_ne_nil hfits.ne_nil, fun hdot => ?_, fun hsharp => ?_⟩
  · obtain ⟨b, hb, heq⟩ := Text.exists_byte_of_mem_decode (by decide) hdot
    exact (hfits.word_bytes b hb).1 (UInt8.toNat_inj.mp heq)
  · obtain ⟨b, hb, heq⟩ := Text.exists_byte_of_mem_decode (by decide) hsharp
    exact (hfits.word_bytes b hb).2 (UInt8.toNat_inj.mp heq)

end Reader

end Apidoc.Java
