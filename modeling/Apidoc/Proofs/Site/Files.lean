import Apidoc.Proofs.Site.Writer
import Apidoc.Proofs.Graph.Symbols
import Apidoc.Proofs.Text.Blank

/-!
# `Apidoc.Proofs.Site.Files`: what a written site leaves on the disk

Writing a site goes in three stages. First the directories are made, and all that was in
the directory of types is removed (`Prepared`). Then come the files that every site has,
and last the pages of the types, one record after another (`Paged`).

The pages are made from the files as they are at that moment, so a page is spoken of
together with the tree that it was made from. `files_of_writeSite` says what every
location holds in the end (`SiteFiles`).

To make the output, every directory that its path goes through is made, also one that a `..`
leaves again. So an output such as `out/x/..` has a directory `out/x` afterwards. Beside the
site nothing else changes (`SiteFiles.get?_of_beside`).
-/

set_option autoImplicit false

namespace Apidoc.Site

open Apidoc.Files
open Apidoc.Files.Tree (SameOn IsSound)
open Apidoc.Graph (Record Symbols)
open Apidoc.Proofs (Preserves exec exec_bind_ok exec_bind_inv exec_get exec_pure)

variable {output : Path} {press : Tree → Press} {t t' t'' : Tree}

/-! ### Where the files of a site are -/

/-- The location of the directory of types. -/
def typesAt (workingDirectory : Location) (output : Path) : Location :=
  resolve workingDirectory output ++ ["types"]

/-- The location of the page of a qualified name. -/
def pageAt (workingDirectory : Location) (output : Path) (name : String) : Location :=
  typesAt workingDirectory output ++ [name ++ ".html"]

/-- The files that every site has, with their contents. -/
def fixedFiles (g : Symbols) (site : Info) : List (String × String) :=
  assets ++ [("root.js", g.script), ("index.html", indexPage g site)]

/-- The directory of types is where its path leads. -/
theorem resolve_typesDirectory (workingDirectory : Location) (output : Path) :
    resolve workingDirectory (typesDirectory output) = typesAt workingDirectory output :=
  resolve_child _ _ (by decide)

/-- The path of the page of a name without slashes is one name. -/
theorem ofString_page {name : String} (h : '/' ∉ name.toList) :
    Path.ofString (name ++ ".html") = ⟨.workingDirectory, [name ++ ".html"]⟩ := by
  have hslash : '/' ∉ (name ++ ".html").toList := by
    rw [String.toList_append, List.mem_append, not_or]
    exact ⟨h, by decide⟩
  have hroot : Path.rootOf (name ++ ".html").toList = .workingDirectory := by
    cases hcs : (name ++ ".html").toList with
    | nil => rfl
    | cons c rest =>
      have hc : c ≠ '/' := by
        rintro rfl
        rw [hcs] at hslash
        exact hslash List.mem_cons_self
      unfold Path.rootOf
      split <;> simp_all
  -- The name ends with more than a dot, so it does not vanish from the path.
  have hlength : 5 ≤ (name ++ ".html").length := by
    rw [String.length_append]
    have hfive : ".html".length = 5 := by decide
    omega
  have hempty : name ++ ".html" ≠ "" := by
    intro heq
    rw [heq] at hlength
    exact absurd hlength (by decide)
  have hdot : name ++ ".html" ≠ "." := by
    intro heq
    rw [heq] at hlength
    exact absurd hlength (by decide)
  unfold Path.ofString
  rw [hroot, Text.splitOn_of_not_mem hslash]
  simp [hempty, hdot]

/-- The page of a name without slashes lies in the directory of types. -/
theorem resolve_page (workingDirectory : Location) (output : Path) {name : String}
    (h : '/' ∉ name.toList) :
    resolve workingDirectory (pageOf output name) = pageAt workingDirectory output name := by
  have hup : name ++ ".html" ≠ ".." := by
    intro heq
    have hlength : (name ++ ".html").length = 2 := by rw [heq]; decide
    rw [String.length_append] at hlength
    have hfive : ".html".length = 5 := by decide
    omega
  have hpath : pageOf output name = (typesDirectory output).child (name ++ ".html") := by
    rw [pageOf, ofString_page h]
    rfl
  rw [hpath, resolve_child _ _ hup, resolve_typesDirectory]
  rfl

/-- Pages of different names are at different locations. -/
theorem pageAt_injective (workingDirectory : Location) (output : Path) {name other : String}
    (h : pageAt workingDirectory output name = pageAt workingDirectory output other) :
    name = other := by
  have hname : [name ++ ".html"] = [other ++ ".html"] := List.append_cancel_left h
  have hlist : (name ++ ".html").toList = (other ++ ".html").toList := by
    rw [(List.cons.inj hname).1]
  rw [String.toList_append, String.toList_append] at hlist
  exact String.toList_injective (List.append_cancel_right hlist)

/-- A page lies below the directory of types. -/
theorem typesAt_prefix_pageAt (workingDirectory : Location) (output : Path) (name : String) :
    typesAt workingDirectory output <+: pageAt workingDirectory output name :=
  List.prefix_append ..

/-! ### Files written one after another -/

/-- Texts are written to a directory, one after another. -/
def putFiles (folder : Location) (t : Tree) (files : List (String × String)) : Tree :=
  files.foldl (fun t f => t.put (folder ++ [f.1]) (.file (Text.encode f.2))) t

/-- Where none of the files is, nothing changes. -/
theorem sameOn_putFiles {S : Location → Bool} {folder : Location} (files : List (String × String))
    (h : ∀ f ∈ files, S (folder ++ [f.1]) = false) (t : Tree) :
    SameOn S t (putFiles folder t files) := by
  induction files generalizing t with
  | nil => exact SameOn.refl S t
  | cons f files ih =>
    have hfirst : SameOn S t (t.put (folder ++ [f.1]) (.file (Text.encode f.2))) :=
      Tree.sameOn_put t _ (h f List.mem_cons_self)
    exact hfirst.trans (ih (fun g hg => h g (List.mem_cons_of_mem _ hg)) _)

/-- Writing files does not move the working directory. -/
theorem workingDirectory_putFiles (folder : Location) (t : Tree) (files : List (String × String)) :
    (putFiles folder t files).workingDirectory = t.workingDirectory :=
  (sameOn_putFiles (S := fun _ => false) files (fun _ _ => rfl) t).workingDirectory

/-- A location that is none of those of the files holds what it held. -/
theorem get?_putFiles_of_ne {folder l : Location} (files : List (String × String))
    (h : ∀ f ∈ files, l ≠ folder ++ [f.1]) (t : Tree) :
    (putFiles folder t files).get? l = t.get? l := by
  refine Tree.get?_eq_of_sameOn (fun k => ∃ f ∈ files, k = folder ++ [f.1]) (fun S hS => ?_) ?_
  · exact sameOn_putFiles files (fun f hf => hS _ ⟨f, hf, rfl⟩) t
  · rintro ⟨f, hf, heq⟩
    exact h f hf heq

/-- Files with different names all hold their texts in the end. -/
theorem get?_putFiles {folder : Location} {files : List (String × String)}
    (distinct : (files.map (·.1)).Nodup) (t : Tree) {f : String × String} (hf : f ∈ files) :
    (putFiles folder t files).get? (folder ++ [f.1]) = some (.file (Text.encode f.2)) := by
  induction files generalizing t with
  | nil => cases hf
  | cons g files ih =>
    obtain ⟨hnew, hrest⟩ := List.nodup_cons.mp distinct
    rcases List.mem_cons.mp hf with rfl | hlater
    · -- The files after it have other names, so they leave it alone.
      have hother : ∀ other ∈ files, folder ++ [f.1] ≠ folder ++ [other.1] := by
        intro other hmem heq
        have hname : [f.1] = [other.1] := List.append_cancel_left heq
        exact hnew (List.mem_map.mpr ⟨other, hmem, (List.cons.inj hname).1.symm⟩)
      have hkept := get?_putFiles_of_ne files hother
        (t.put (folder ++ [f.1]) (.file (Text.encode f.2)))
      exact hkept.trans (Tree.get?_put_self t _ _ (by simp))
    · exact ih hrest _ hlater

/-- Writing files into a directory that is there puts them below its location. -/
theorem forM_write_inv {files : List (String × String)} (hnames : ∀ f ∈ files, f.1 ≠ "..")
    {u : Unit}
    (h : exec (do for f in files do Action.write (output.child f.1) f.2) t = (.ok u, t')) :
    t' = putFiles (resolve t.workingDirectory output) t files := by
  induction files generalizing t with
  | nil =>
    cases h
    rfl
  | cons f files ih =>
    have hsplit : (do for g in f :: files do Action.write (output.child g.1) g.2) = (do
        Action.write (output.child f.1) f.2
        for g in files do Action.write (output.child g.1) g.2) := by
      simp
    rw [hsplit] at h
    obtain ⟨v, t₁, hwrite, hrest⟩ := exec_bind_inv h
    obtain ⟨-, -, rfl⟩ := write_inv hwrite
    rw [resolve_child _ _ (hnames f List.mem_cons_self)] at hrest
    exact ih (fun g hg => hnames g (List.mem_cons_of_mem _ hg)) hrest

/-- Writing files into a directory leaves every directory where it is. -/
theorem preserves_directory_forM_write (output : Path) (d : Location)
    (files : List (String × String)) :
    Preserves (fun t => t.get? d = some .directory)
      (do for f in files do Action.write (output.child f.1) f.2) := by
  induction files with
  | nil => exact fun t ht => ht
  | cons f files ih =>
    have hsplit : (do for g in f :: files do Action.write (output.child g.1) g.2) = (do
        Action.write (output.child f.1) f.2
        for g in files do Action.write (output.child g.1) g.2) := by
      simp
    rw [hsplit]
    exact Preserves.bind (preserves_directory_write d _ _) fun _ => ih

/-! ### The directories -/

/-- The directories are made and the directory of types is empty. Everywhere else the tree
is the same, but for directories on the way of the output. -/
structure Prepared (output : Path) (t t' : Tree) : Prop where
  workingDirectory : t'.workingDirectory = t.workingDirectory
  /-- The way of the output is there, with the output itself. -/
  way : ∀ l ∈ onWay t.workingDirectory output, t'.get? l = some .directory
  types : t'.get? (typesAt t.workingDirectory output) = some .directory
  empty : ∀ l, typesAt t.workingDirectory output <+: l →
    l ≠ typesAt t.workingDirectory output → t'.get? l = none
  same : ∀ S : Location → Bool,
    (∀ l, typesAt t.workingDirectory output <+: l → S l = false) →
    (∀ l ∈ onWay t.workingDirectory output, t.get? l = none → S l = false) → SameOn S t t'
  other : ∀ l, ¬ typesAt t.workingDirectory output <+: l → t'.get? l = t.get? l ∨
    (t.get? l = none ∧ t'.get? l = some .directory ∧ l ∈ onWay t.workingDirectory output)

/-- Where the directory of types is looked up is the way of the output with its end. -/
theorem wayOf_typesDirectory (workingDirectory : Location) (output : Path) :
    wayOf workingDirectory (typesDirectory output) = onWay workingDirectory output :=
  wayOf_child workingDirectory output "types"

/-- The way of a directory that was made is there, with the directory. -/
theorem way_of_makes {p : Path} (h : Makes p t t') :
    ∀ l ∈ onWay t.workingDirectory p, t'.get? l = some .directory := by
  intro l hl
  rcases List.mem_append.mp hl with hl | hl
  · have hway := (Tree.locate_eq_ok_iff.mp h.location).2.1 l
    rw [h.workingDirectory_eq] at hway
    exact hway hl
  · rw [List.mem_singleton.mp hl]
    exact h.directory

/-- The way of the directory of types is that of the output, with the directory. -/
theorem onWay_typesDirectory (workingDirectory : Location) (output : Path) :
    onWay workingDirectory (typesDirectory output) =
      onWay workingDirectory output ++ [typesAt workingDirectory output] := by
  rw [onWay, wayOf_typesDirectory, resolve_typesDirectory]

/-- To make the directory of types where only that one is missing touches nothing else. -/
theorem get?_of_makes_types {output : Path} {s s' : Tree}
    (hmakes : Makes (typesDirectory output) s s')
    (hway : ∀ l ∈ onWay s.workingDirectory output,
      s.get? l = none → l = typesAt s.workingDirectory output) :
    (∀ l ∈ onWay s.workingDirectory output, s'.get? l = some .directory) ∧
    s'.get? (typesAt s.workingDirectory output) = some .directory ∧
    ∀ S : Location → Bool, S (typesAt s.workingDirectory output) = false → SameOn S s s' := by
  have hthere := way_of_makes hmakes
  rw [onWay_typesDirectory] at hthere
  refine ⟨fun l hl => hthere l (List.mem_append_left _ hl),
    hthere _ (List.mem_append_right _ (List.mem_singleton_self _)),
    fun S hS => hmakes.same S fun l hl hnone => ?_⟩
  rw [onWay_typesDirectory] at hl
  rcases List.mem_append.mp hl with hl | hl
  · rw [hway l hl hnone]
    exact hS
  · rw [List.mem_singleton.mp hl]
    exact hS

/-- The old directory of types is gone in `s'`. There was none in `s`, or it was removed with all that
was in it, and then the way of the output does not lead through it. -/
def Cleared (workingDirectory : Location) (output : Path) (s s' : Tree) : Prop :=
  (s' = s ∧ s.get? (typesAt workingDirectory output) = none) ∨
    ((∀ d ∈ onWay workingDirectory output, typesAt workingDirectory output <+: d →
      d = typesAt workingDirectory output) ∧ s' = s.prune (typesAt workingDirectory output))

/-- To clear the directory of types touches nothing outside of it. -/
theorem Cleared.sameOn {workingDirectory : Location} {s s' : Tree}
    (h : Cleared workingDirectory output s s') {S : Location → Bool}
    (hS : ∀ l, typesAt workingDirectory output <+: l → S l = false) : SameOn S s s' := by
  rcases h with ⟨rfl, -⟩ | ⟨-, rfl⟩
  · exact SameOn.refl S _
  · exact Tree.sameOn_prune _ hS

/-- Of the way of the output only the directory of types itself can be missing now. -/
theorem Cleared.missing {workingDirectory : Location} {s s' : Tree}
    (h : Cleared workingDirectory output s s')
    (hway : ∀ l ∈ onWay workingDirectory output, s.get? l = some .directory) :
    ∀ l ∈ onWay workingDirectory output, s'.get? l = none → l = typesAt workingDirectory output := by
  intro l hl hnone
  rcases h with ⟨rfl, -⟩ | ⟨hthrough, rfl⟩
  · rw [hway l hl] at hnone
    cases hnone
  · by_cases hprefix : typesAt workingDirectory output <+: l
    · exact hthrough l hl hprefix
    · rw [Tree.get?_prune_of_not_prefix _ hprefix, hway l hl] at hnone
      cases hnone

/-- Nothing is left below the directory of types. If it was not there before the output was made, the
tree has to be sound, so that nothing can have been below. -/
theorem Cleared.none_below {s s' : Tree} (h : Cleared t.workingDirectory output s s')
    (hsound : t.get? (typesAt t.workingDirectory output) = none → t.IsSound)
    (houtput : Makes output t s) {l : Location} (hl : typesAt t.workingDirectory output <+: l)
    (hne : l ≠ typesAt t.workingDirectory output) : s'.get? l = none := by
  rcases h with ⟨rfl, hnone⟩ | ⟨-, rfl⟩
  · have hmissing : t.get? (typesAt t.workingDirectory output) = none := by
      rcases houtput.get?_cases (typesAt t.workingDirectory output) with hsame | ⟨hold, -⟩
      · rw [← hsame]
        exact hnone
      · exact hold
    by_contra hsome
    have habove := (houtput.sound (hsound hmissing)).directory_above hl (Ne.symm hne) hsome
    rw [hnone] at habove
    cases habove
  · refine Tree.get?_prune_of_prefix _ hl ?_
    rintro rfl
    have hnil := List.prefix_nil.mp hl
    simp [typesAt] at hnil

/-- Making the directories of a site prepares the tree for its files. What was in the
directory of types is gone, and if that directory was not there, nothing was in it. -/
theorem prepared_of_directories {s₁ s₂ s₃ : Tree}
    (hsound : t.get? (typesAt t.workingDirectory output) = none → t.IsSound)
    (houtput : Makes output t s₁) (hcleared : Cleared t.workingDirectory output s₁ s₂)
    (htypes : Makes (typesDirectory output) s₂ s₃) : Prepared output t s₃ := by
  have hworking : s₂.workingDirectory = t.workingDirectory :=
    (hcleared.sameOn (S := fun _ => false) fun _ _ => rfl).workingDirectory.trans
      houtput.workingDirectory_eq
  have hmissing := hcleared.missing (way_of_makes houtput)
  obtain ⟨hthere, htypesThere, hsame⟩ :=
    get?_of_makes_types htypes (by rw [hworking]; exact hmissing)
  rw [hworking] at hthere htypesThere hsame
  have hkept : ∀ S : Location → Bool,
      (∀ l, typesAt t.workingDirectory output <+: l → S l = false) → SameOn S s₁ s₃ :=
    fun S hS => (hcleared.sameOn hS).trans (hsame S (hS _ List.prefix_rfl))
  exact {
    workingDirectory := htypes.workingDirectory_eq.trans hworking
    way := hthere
    types := htypesThere
    empty := by
      intro l hl hne
      have hone := Tree.get?_eq_of_sameOn (· = typesAt t.workingDirectory output)
        (fun S hS => hsame S (hS _ rfl)) hne
      rw [hone]
      exact hcleared.none_below hsound houtput hl hne
    same := fun S hS hnew => (houtput.same S hnew).trans (hkept S hS)
    other := by
      intro l hl
      rw [Tree.get?_eq_of_sameOn _ hkept hl]
      exact houtput.get?_cases l }

/-! ### The pages -/

/-- Pages were written one after another from `t` on. Each record has the page that was made
from the tree at its moment, in which its own page and those after it were not written yet. -/
structure Paged (output : Path) (press : Tree → Press) (rs : List Record) (t t' : Tree) :
    Prop where
  workingDirectory : t'.workingDirectory = t.workingDirectory
  page : ∀ before r after, rs = before ++ r :: after → ∃ (moment : Tree) (text : String),
    (press moment).typePage r = .ok text ∧
    t'.get? (pageAt t.workingDirectory output r.qualifiedName) =
      some (.file (Text.encode text)) ∧
    moment.workingDirectory = t.workingDirectory ∧
    ∀ l, moment.get? l =
      if l ∈ (r :: after).map (fun s => pageAt t.workingDirectory output s.qualifiedName)
      then t.get? l else t'.get? l
  same : ∀ S : Location → Bool,
    (∀ r ∈ rs, S (pageAt t.workingDirectory output r.qualifiedName) = false) → SameOn S t t'

/-- Writing the page of a type puts a text at its location. -/
theorem writeTypePage_put {r : Record} (hname : '/' ∉ r.qualifiedName.toList) {page : Path}
    (h : exec (writeTypePage output press r) t = (.ok page, t')) :
    page = pageOf output r.qualifiedName ∧ ∃ text, (press t).typePage r = .ok text ∧
      t' = t.put (pageAt t.workingDirectory output r.qualifiedName)
        (.file (Text.encode text)) := by
  obtain ⟨rfl, text, htext, hwrite⟩ := writeTypePage_inv h
  obtain ⟨l, hlocate, -, hput⟩ := Tree.write_eq_ok_iff.mp hwrite
  rw [Tree.eq_resolve_of_locate hlocate, resolve_page _ _ hname] at hput
  exact ⟨rfl, text, htext, hput⟩

/-- A location that is that of none of the pages holds what it held. -/
theorem Paged.get?_eq {rs : List Record} (h : Paged output press rs t t') {l : Location}
    (hl : ∀ r ∈ rs, pageAt t.workingDirectory output r.qualifiedName ≠ l) :
    t'.get? l = t.get? l := by
  refine Tree.get?_eq_of_sameOn
    (fun k => ∃ r ∈ rs, pageAt t.workingDirectory output r.qualifiedName = k) (fun S hS => ?_) ?_
  · exact h.same S fun r hr => hS _ ⟨r, hr, rfl⟩
  · rintro ⟨r, hr, heq⟩
    exact hl r hr heq

/-- A page of another name than those after it, and then those after it. -/
theorem Paged.cons {r : Record} {rest : List Record} {text : String}
    (h : Paged output press rest
      (t.put (pageAt t.workingDirectory output r.qualifiedName) (.file (Text.encode text))) t')
    (hnew : r.qualifiedName ∉ rest.map Record.qualifiedName)
    (htext : (press t).typePage r = .ok text) : Paged output press (r :: rest) t t' := by
  let at' (s : Record) : Location := pageAt t.workingDirectory output s.qualifiedName
  have hother : ∀ s ∈ rest, at' s ≠ at' r := by
    intro s hs heq
    exact hnew (List.mem_map.mpr ⟨s, hs, pageAt_injective _ _ heq⟩)
  have hkept : ∀ l, (∀ s ∈ rest, at' s ≠ l) →
      t'.get? l = (t.put (at' r) (.file (Text.encode text))).get? l := fun l hl => h.get?_eq hl
  refine ⟨h.workingDirectory, fun before s after hsplit => ?_, fun S hS => ?_⟩
  · cases before with
    | nil =>
      obtain ⟨rfl, rfl⟩ := List.cons.inj hsplit
      refine ⟨t, text, htext, ?_, rfl, fun l => ?_⟩
      · rw [hkept _ hother]
        exact Tree.get?_put_self t _ _ (by simp [at', pageAt])
      · split
        · rfl
        · rename_i hl
          have hrest : ∀ k ∈ rest, at' k ≠ l := fun k hk heq =>
            hl (List.mem_map.mpr ⟨k, List.mem_cons_of_mem _ hk, heq⟩)
          have hfirst : l ≠ at' r := fun heq =>
            hl (List.mem_map.mpr ⟨r, List.mem_cons_self, heq.symm⟩)
          rw [hkept l hrest, Tree.get?_put_of_ne t _ hfirst]
    | cons first before =>
      obtain ⟨rfl, rfl⟩ := List.cons.inj hsplit
      obtain ⟨moment, page, hpage, hfile, hworking, hmoment⟩ := h.page before s after rfl
      refine ⟨moment, page, hpage, hfile, hworking, fun l => (hmoment l).trans ?_⟩
      by_cases hl : l ∈ (s :: after).map at'
      · -- The pages that are still missing are not that of the first record.
        obtain ⟨k, hk, rfl⟩ := List.mem_map.mp hl
        refine (if_pos hl).trans (Eq.trans ?_ (if_pos hl).symm)
        exact Tree.get?_put_of_ne t _ (hother k (List.mem_append_right _ hk))
      · exact (if_neg hl).trans (if_neg hl).symm
  · have hfirst := Tree.sameOn_put t (.file (Text.encode text)) (hS r List.mem_cons_self)
    exact hfirst.trans (h.same S fun s hs => hS s (List.mem_cons_of_mem _ hs))

/-- Writing the pages of records with different names. -/
theorem paged_of_mapM {rs : List Record} (hnames : ∀ r ∈ rs, '/' ∉ r.qualifiedName.toList)
    (distinct : (rs.map Record.qualifiedName).Nodup) {pages : List Path}
    (h : exec (rs.mapM (writeTypePage output press)) t = (.ok pages, t')) :
    pages = rs.map (fun r => pageOf output r.qualifiedName) ∧ Paged output press rs t t' := by
  induction rs generalizing t pages with
  | nil =>
    rw [List.mapM_nil, exec_pure] at h
    cases h
    exact ⟨rfl, rfl, fun before r after hsplit => by simp at hsplit, fun S _ => SameOn.refl S _⟩
  | cons r rest ih =>
    rw [List.mapM_cons] at h
    obtain ⟨page, t₁, hfirst, h⟩ := exec_bind_inv h
    obtain ⟨more, t₂, hrest, h⟩ := exec_bind_inv h
    rw [exec_pure] at h
    cases h
    obtain ⟨hnew, hdistinct⟩ := List.nodup_cons.mp distinct
    obtain ⟨hpage, text, htext, rfl⟩ := writeTypePage_put (hnames r List.mem_cons_self) hfirst
    obtain ⟨hmore, hpaged⟩ := ih (fun s hs => hnames s (List.mem_cons_of_mem _ hs)) hdistinct hrest
    refine ⟨by rw [List.map_cons, hpage, hmore], hpaged.cons hnew htext⟩

/-! ### The site -/

/-- The question about the old directory of types, and its removal if it is there. -/
theorem cleared_of_removal {s₁ s₂ s₃ : Tree} {u : Unit} (houtput : Makes output t s₁)
    (h : exec (do
      if (← Action.ask fun t => t.find? (typesDirectory output)).isSome then
        Action.removeDirectory (typesDirectory output)) s₁ = (.ok u, s₂))
    (htypes : Makes (typesDirectory output) s₂ s₃) :
    Cleared t.workingDirectory output s₁ s₂ := by
  have hworking := houtput.workingDirectory_eq
  obtain ⟨answer, s, hask, hremove⟩ := exec_bind_inv h
  obtain ⟨hanswer, hsame⟩ := ask_inv hask
  rw [hsame] at hremove
  split at hremove
  · obtain ⟨-, -, hthrough, hpruned⟩ := removeDirectory_inv hremove
    rw [resolve_typesDirectory, wayOf_typesDirectory, hworking] at hthrough
    rw [resolve_typesDirectory, hworking] at hpruned
    exact Or.inr ⟨hthrough, hpruned⟩
  · rename_i hnone
    have hkept : s₂ = s₁ := (congrArg Prod.snd hremove).symm
    -- The path is fit to be asked about, as the directory is made in the next step.
    have hnameable := (Tree.locate_eq_ok_iff.mp htypes.location).1
    have hlocate : s₁.locate (typesDirectory output) =
        .ok (typesAt t.workingDirectory output) := by
      refine Tree.locate_eq_ok_iff.mpr ⟨hnameable, ?_, ?_⟩
      · rw [wayOf_typesDirectory, hworking]
        exact way_of_makes houtput
      · rw [resolve_typesDirectory, hworking]
    have hfind : s₁.find? (typesDirectory output) =
        .ok (s₁.get? (typesAt t.workingDirectory output)) := by
      unfold Tree.find?
      rw [hlocate]
    rw [hfind, Except.ok.injEq] at hanswer
    refine Or.inl ⟨hkept, ?_⟩
    rw [hanswer]
    simpa using hnone

/-- The names of the fixed files do not depend on the graph. -/
theorem names_fixedFiles (g : Symbols) (site : Info) : (fixedFiles g site).map (·.1) =
    ["main.css", "main.js", "root.js", "index.html"] := rfl

/-- Writing a site is to make its directories, then to write its fixed files in one run, and then its
pages. -/
theorem writeSite_eq (output : Path) (g : Symbols) (site : Info) (press : Tree → Press) :
    writeSite output g site press = (do
      Action.makeDirectories output
      (do if (← Action.ask fun t => t.find? (typesDirectory output)).isSome then
            Action.removeDirectory (typesDirectory output))
      Action.makeDirectories (typesDirectory output)
      Action.makeDirectories output
      (do for f in fixedFiles g site do Action.write (output.child f.1) f.2)
      g.types.mapM (writeTypePage output press)) := by
  rw [writeSite_steps]
  simp only [writeAssets, fixedFiles, assets, List.cons_append, List.nil_append, List.forIn_cons,
    List.forIn_nil, bind_assoc, pure_bind]

/-- A written site has its directories prepared, then its fixed files written, and then its
pages. The files are written where there are no directories. If there was no directory of
types, the tree has to be sound, so that nothing can have been below. -/
theorem writeSite_stages {g : Symbols} {site : Info} {pages : List Path}
    (hsound : t.get? (typesAt t.workingDirectory output) = none → t.IsSound)
    (h : exec (writeSite output g site press) t = (.ok pages, t')) :
    ∃ s, Prepared output t s ∧
      (∀ d, s.get? d = some .directory →
        (putFiles (resolve t.workingDirectory output) s (fixedFiles g site)).get? d =
          some .directory) ∧
      exec (g.types.mapM (writeTypePage output press))
        (putFiles (resolve t.workingDirectory output) s (fixedFiles g site)) =
        (.ok pages, t') := by
  rw [writeSite_eq] at h
  obtain ⟨u₁, s₁, houtput, h⟩ := exec_bind_inv h
  obtain ⟨u₂, s₂, hremove, h⟩ := exec_bind_inv h
  obtain ⟨u₃, s₃, htypes, h⟩ := exec_bind_inv h
  obtain ⟨u₄, s₄, hagain, h⟩ := exec_bind_inv h
  obtain ⟨u₅, s₅, hwritten, hpages⟩ := exec_bind_inv h
  have hmadeOutput := makeDirectories_inv houtput
  have hmadeTypes := makeDirectories_inv htypes
  have hprepared : Prepared output t s₃ := prepared_of_directories hsound hmadeOutput
    (cleared_of_removal hmadeOutput hremove hmadeTypes) hmadeTypes
  -- The output is made once more for the assets, but it is there already.
  have hthere : ∀ l ∈ onWay s₃.workingDirectory output, s₃.get? l ≠ none := by
    intro l hl
    rw [hprepared.workingDirectory] at hl
    rw [hprepared.way l hl]
    nofun
  obtain rfl : s₄ = s₃ := (makeDirectories_inv hagain).eq_of_there hthere
  have hnames : ∀ f ∈ fixedFiles g site, f.1 ≠ ".." := by
    intro f hf hup
    have hmem : ".." ∈ (fixedFiles g site).map (·.1) := List.mem_map.mpr ⟨f, hf, hup⟩
    rw [names_fixedFiles] at hmem
    exact absurd hmem (by decide)
  have hput := forM_write_inv hnames hwritten
  rw [hprepared.workingDirectory] at hput
  refine ⟨s₄, hprepared, fun d hd => ?_, hput ▸ hpages⟩
  have hkept := preserves_directory_forM_write output d (fixedFiles g site) s₄ hd
  have hrun : exec (do for f in fixedFiles g site do Action.write (output.child f.1) f.2) s₄ =
      (.ok u₅, s₅) := hwritten
  rw [hrun] at hkept
  exact hput ▸ hkept

/-- A location in the output directory, at any depth, that is none of those of a site: neither the
directory of types or something in it, nor a file that every site has. -/
structure Beside (workingDirectory : Location) (output : Path) (g : Symbols) (site : Info)
    (l : Location) : Prop where
  inside : resolve workingDirectory output <+: l
  ne_output : l ≠ resolve workingDirectory output
  outsideTypes : ¬ typesAt workingDirectory output <+: l
  ne_fixed : ∀ f ∈ fixedFiles g site, l ≠ resolve workingDirectory output ++ [f.1]

/-- What every location holds in `t'` after a site was written in place of `t`. -/
structure SiteFiles (output : Path) (g : Symbols) (site : Info) (press : Tree → Press)
    (t t' : Tree) : Prop where
  workingDirectory : t'.workingDirectory = t.workingDirectory
  /-- The pages of different records are different files. -/
  distinct : (g.types.map fun r =>
    pageAt t.workingDirectory output r.qualifiedName).Nodup
  /-- Each record has its page, made from the tree in which the pages before were written. -/
  page : ∀ before r after, g.types = before ++ r :: after → ∃ (moment : Tree) (text : String),
    (press moment).typePage r = .ok text ∧
    t'.get? (pageAt t.workingDirectory output r.qualifiedName) =
      some (.file (Text.encode text)) ∧
    moment.workingDirectory = t.workingDirectory ∧
    ∀ l, moment.get? l =
      if l ∈ (r :: after).map (fun s => pageAt t.workingDirectory output s.qualifiedName)
      then none else t'.get? l
  types : t'.get? (typesAt t.workingDirectory output) = some .directory
  /-- The directory of types holds nothing else at any depth. -/
  onlyPages : ∀ l, typesAt t.workingDirectory output <+: l →
    l ≠ typesAt t.workingDirectory output →
    l ∉ g.types.map (fun r => pageAt t.workingDirectory output r.qualifiedName) →
    t'.get? l = none
  /-- The index page, the script of the graph and the assets are written anew. -/
  fixed : ∀ f ∈ fixedFiles g site,
    t'.get? (resolve t.workingDirectory output ++ [f.1]) = some (.file (Text.encode f.2))
  /-- The way of the output is there, with the output itself. -/
  way : ∀ l ∈ onWay t.workingDirectory output, t'.get? l = some .directory
  /-- All else is as it was, but for directories on the way of the output that were missing. -/
  other : ∀ l, ¬ typesAt t.workingDirectory output <+: l →
    (∀ f ∈ fixedFiles g site, l ≠ resolve t.workingDirectory output ++ [f.1]) →
    t'.get? l = t.get? l ∨
      (t.get? l = none ∧ t'.get? l = some .directory ∧ l ∈ onWay t.workingDirectory output)

/-- No file that every site has is in the directory of types, and none is that directory. -/
theorem not_prefix_fixed (workingDirectory : Location) (output : Path) {g : Symbols} {site : Info}
    {f : String × String} (hf : f ∈ fixedFiles g site) :
    ¬ typesAt workingDirectory output <+: resolve workingDirectory output ++ [f.1] := by
  intro hprefix
  have hname : f.1 = "types" := by
    have hone : ["types"] <+: [f.1] := (List.prefix_append_right_inj _).mp hprefix
    exact ((List.cons_prefix_cons.mp hone).1).symm
  have hmem : "types" ∈ (fixedFiles g site).map (·.1) := List.mem_map.mpr ⟨f, hf, hname⟩
  rw [names_fixedFiles] at hmem
  exact absurd hmem (by decide)

/-- The files that every site has leave the directory of types alone. -/
theorem get?_putFiles_fixed {workingDirectory : Location} {g : Symbols} {site : Info} {l : Location}
    (hl : typesAt workingDirectory output <+: l) (s : Tree) :
    (putFiles (resolve workingDirectory output) s (fixedFiles g site)).get? l = s.get? l := by
  refine get?_putFiles_of_ne _ (fun f hf heq => ?_) s
  exact not_prefix_fixed workingDirectory output hf (heq ▸ hl)

/-- What the last stages of a site write on top of the prepared directories. The fixed files are not
written where there are directories. -/
theorem siteFiles_of_stages {g : Symbols} {site : Info} {s : Tree}
    (hdistinct : (g.types.map Record.qualifiedName).Nodup) (hprepared : Prepared output t s)
    (hkept : ∀ d, s.get? d = some .directory →
      (putFiles (resolve t.workingDirectory output) s (fixedFiles g site)).get? d =
        some .directory)
    (hpaged : Paged output press g.types
      (putFiles (resolve t.workingDirectory output) s (fixedFiles g site)) t') :
    SiteFiles output g site press t t' := by
  have hworking : (putFiles (resolve t.workingDirectory output) s
      (fixedFiles g site)).workingDirectory = t.workingDirectory := by
    rw [workingDirectory_putFiles, hprepared.workingDirectory]
  have hbelow : ∀ l, typesAt t.workingDirectory output <+: l →
      (putFiles (resolve t.workingDirectory output) s (fixedFiles g site)).get? l = s.get? l :=
    fun l hl => get?_putFiles_fixed hl s
  -- The pages leave all else alone.
  have hnoPage : ∀ l, (∀ r ∈ g.types, pageAt t.workingDirectory output r.qualifiedName ≠ l) →
      t'.get? l =
        (putFiles (resolve t.workingDirectory output) s (fixedFiles g site)).get? l := by
    intro l hl
    refine hpaged.get?_eq ?_
    rw [hworking]
    exact hl
  have houtside : ∀ l, ¬ typesAt t.workingDirectory output <+: l →
      ∀ r ∈ g.types, pageAt t.workingDirectory output r.qualifiedName ≠ l := by
    rintro l hl r - rfl
    exact hl (typesAt_prefix_pageAt _ _ _)
  have hunwritten : ∀ name, s.get? (pageAt t.workingDirectory output name) = none := fun name =>
    hprepared.empty _ (typesAt_prefix_pageAt _ _ _) (by simp [pageAt])
  exact {
    workingDirectory := hpaged.workingDirectory.trans hworking
    distinct := by
      have hmap : g.types.map (fun r => pageAt t.workingDirectory output r.qualifiedName) =
          (g.types.map Record.qualifiedName).map (pageAt t.workingDirectory output) := by
        rw [List.map_map]
        rfl
      rw [hmap]
      exact hdistinct.map fun _ _ => pageAt_injective _ _
    page := by
      intro before r after hsplit
      obtain ⟨moment, text, htext, hfile, hmomentWorking, hmoment⟩ :=
        hpaged.page before r after hsplit
      rw [hworking] at hfile hmomentWorking
      refine ⟨moment, text, htext, hfile, hmomentWorking, fun l => (hmoment l).trans ?_⟩
      rw [hworking]
      split
      · rename_i hl
        obtain ⟨k, -, rfl⟩ := List.mem_map.mp hl
        rw [hbelow _ (typesAt_prefix_pageAt _ _ _), hunwritten]
      · rfl
    types := by
      rw [hnoPage _ (fun r _ => by simp [pageAt]), hbelow _ List.prefix_rfl, hprepared.types]
    onlyPages := by
      intro l hl hne hnone
      have hnot : ∀ r ∈ g.types, pageAt t.workingDirectory output r.qualifiedName ≠ l :=
        fun r hr heq => hnone (List.mem_map.mpr ⟨r, hr, heq⟩)
      rw [hnoPage l hnot, hbelow l hl, hprepared.empty l hl hne]
    fixed := by
      intro f hf
      have hnames : ((fixedFiles g site).map (·.1)).Nodup := by
        rw [names_fixedFiles]
        decide
      rw [hnoPage _ (houtside _ (not_prefix_fixed t.workingDirectory output hf))]
      exact get?_putFiles hnames s hf
    way := by
      intro l hl
      have hdirectory := hprepared.way l hl
      have hnot : ∀ r ∈ g.types, pageAt t.workingDirectory output r.qualifiedName ≠ l := by
        rintro r - rfl
        rw [hunwritten] at hdirectory
        cases hdirectory
      rw [hnoPage l hnot]
      exact hkept l hdirectory
    other := by
      intro l hl hfixed
      rw [hnoPage l (houtside l hl), get?_putFiles_of_ne _ hfixed s]
      exact hprepared.other l hl }

/-- In the output directory, beside what belongs to the site, there is a directory wherever the path
of the output leaves one by `..`. All else is as it was. -/
theorem SiteFiles.get?_of_beside {g : Symbols} {site : Info}
    (hfiles : SiteFiles output g site press t t') {l : Location}
    (hl : Beside t.workingDirectory output g site l) :
    t'.get? l =
      if l ∈ leaving (startOf t.workingDirectory output) output.names then some .directory
      else t.get? l := by
  split
  · rename_i hleft
    exact hfiles.way l (List.mem_append_left _ (mem_way_of_mem_leaving hleft))
  · rename_i hleft
    rcases hfiles.other l hl.outsideTypes hl.ne_fixed with hsame | ⟨-, -, hway⟩
    · exact hsame
    · -- What is on the way and is not left is above the output, not in it.
      have habove := (above_or_leaving_of_mem_onWay hway).resolve_right hleft
      have hsame := habove.eq_of_length (Nat.le_antisymm habove.length_le hl.inside.length_le)
      exact absurd hsame hl.ne_output

/-- A site that was written, for records with different names. -/
theorem siteFiles_of_writeSite {g : Symbols} {site : Info} {pages : List Path} (hsound : t.IsSound)
    (hnames : ∀ r ∈ g.types, '/' ∉ r.qualifiedName.toList)
    (hdistinct : (g.types.map Record.qualifiedName).Nodup)
    (h : exec (writeSite output g site press) t = (.ok pages, t')) :
    pages = g.types.map (fun r => pageOf output r.qualifiedName) ∧
      SiteFiles output g site press t t' := by
  obtain ⟨s, hprepared, hkept, hpages⟩ := writeSite_stages (fun _ => hsound) h
  obtain ⟨hanswer, hpaged⟩ := paged_of_mapM hnames hdistinct hpages
  exact ⟨hanswer, siteFiles_of_stages hdistinct hprepared hkept hpaged⟩

/-- The files of a written site, whatever was there before.

Take a graph that was built by adding records, with no slash in a qualified name. If a site
is written, the answers are the paths of the pages in graph order, each path leads to the
page of its record, and `SiteFiles` says what every location holds: the directory of types
has the page of each record and nothing else, the fixed files are written anew, and all
else is as before, but for missing directories on the way of the output.

In the output directory these are the directories that the path of the output leaves again by
`..`. Every other entry beside the site is as it was, and without `..` in the path every entry
beside the site is. Trees have no links, so a file that is written has one location, and no
other entry stands for it. -/
theorem files_of_writeSite {site : Info} (records : List Record) {pages : List Path}
    (hsound : t.IsSound)
    (hnames : ∀ r ∈ (records.foldl Symbols.add .empty).types, '/' ∉ r.qualifiedName.toList)
    (h : (writeSite output (records.foldl Symbols.add .empty) site press).exec t =
      (.ok pages, t')) :
    let g := records.foldl Symbols.add .empty
    pages = g.types.map (fun r => (typesDirectory output).child (r.qualifiedName ++ ".html")) ∧
    (∀ r ∈ g.types, t'.locate ((typesDirectory output).child (r.qualifiedName ++ ".html")) =
      .ok (pageAt t.workingDirectory output r.qualifiedName)) ∧
    SiteFiles output g site press t t' ∧
    (∀ l, Beside t.workingDirectory output g site l → t'.get? l =
      if l ∈ leaving (startOf t.workingDirectory output) output.names then some .directory
      else t.get? l) ∧
    (".." ∉ output.names → ∀ l, Beside t.workingDirectory output g site l →
      t'.get? l = t.get? l) := by
  intro g
  have hdistinct : (g.types.map Record.qualifiedName).Nodup :=
    (Symbols.isFilled_empty.foldl_add records).names
  obtain ⟨hpages, hfiles⟩ := siteFiles_of_writeSite hsound hnames hdistinct h
  have hpath : ∀ r ∈ g.types, pageOf output r.qualifiedName =
      (typesDirectory output).child (r.qualifiedName ++ ".html") := by
    intro r hr
    rw [pageOf, ofString_page (hnames r hr)]
    rfl
  refine ⟨?_, fun r hr => ?_, hfiles, fun l hl => hfiles.get?_of_beside hl, fun hup l hl => ?_⟩
  · rw [hpages]
    exact List.map_congr_left hpath
  · obtain ⟨l, content, hlocate, -⟩ := Tree.isFile_iff.mp (isFile_page_of_writeSite h hr).2
    have hl := Tree.eq_resolve_of_locate hlocate
    rw [hfiles.workingDirectory, resolve_page _ _ (hnames r hr)] at hl
    rw [← hpath r hr, hlocate, hl]
  · have hentry := hfiles.get?_of_beside hl
    rw [leaving_eq_nil hup, if_neg List.not_mem_nil] at hentry
    exact hentry

/-- An output directory with an old site: pages of types that are gone, one of them further
down, and a file that has nothing to do with the site. -/
def staleSite : Tree :=
  ⟨[(["out"], .directory), (["out", "notes.txt"], .file [110]),
    (["out", "types"], .directory), (["out", "types", "Old.html"], .file [111]),
    (["out", "types", "sub"], .directory), (["out", "types", "sub", "Older.html"], .file [])], []⟩

/-- The stale tree is sound. -/
theorem isSound_staleSite : staleSite.IsSound where
  above := by decide
  start := rfl
  names := by decide

/-- A press without samples, links and an editor. -/
def barePress : Press where
  site := ⟨"", "", ""⟩
  renderer := ⟨⟨.empty, [], fun _ => none, none⟩, none, "../"⟩
  samples := none
  editor := none

/-- Two records, each of which is added twice. -/
def twiceAdded : List Record := Symbols.cycleRecords ++ Symbols.cycleRecords

/-- A new site takes the place of the old one: the old pages are gone at every depth, each record has
one page, and the other file is kept. -/
theorem files_of_writeSite_stale :
    ∃ pages t', (writeSite (.ofString "out") (twiceAdded.foldl Symbols.add .empty) barePress.site
        fun _ => barePress).exec staleSite = (.ok pages, t') ∧
      pages = [.ofString "out/types/Pong.html", .ofString "out/types/Ping.html"] ∧
      t'.get? ["out", "types", "Old.html"] = none ∧
      t'.get? ["out", "types", "sub", "Older.html"] = none ∧
      t'.get? ["out", "notes.txt"] = some (.file [110]) := by
  let written := (writeSite (.ofString "out") (twiceAdded.foldl Symbols.add .empty) barePress.site
    fun _ => barePress).exec staleSite
  have hpages : written.1 = .ok
      [.ofString "out/types/Pong.html", .ofString "out/types/Ping.html"] := by decide +kernel
  have hrun : written = (.ok [.ofString "out/types/Pong.html", .ofString "out/types/Ping.html"],
      written.2) := by rw [← hpages]
  have hnames : ∀ r ∈ (twiceAdded.foldl Symbols.add .empty).types,
      '/' ∉ r.qualifiedName.toList := by decide +kernel
  obtain ⟨-, -, hfiles, -, hother⟩ := files_of_writeSite twiceAdded isSound_staleSite hnames hrun
  have hbeside : Beside [] (.ofString "out") (twiceAdded.foldl Symbols.add .empty) barePress.site
      ["out", "notes.txt"] :=
    ⟨by decide +kernel, by decide +kernel, by decide +kernel, by decide +kernel⟩
  refine ⟨_, written.2, hrun, rfl, ?_, ?_, ?_⟩
  · exact hfiles.onlyPages _ (by decide +kernel) (by decide +kernel) (by decide +kernel)
  · exact hfiles.onlyPages _ (by decide +kernel) (by decide +kernel) (by decide +kernel)
  · have hkept := hother (by decide +kernel) ["out", "notes.txt"] hbeside
    exact hkept

/-- The path of an output is looked up name by name, so what it leaves by `..` has to be made first.
The directory `out/x`, which was missing, stays there as a new entry beside the site. -/
theorem files_of_writeSite_leaving :
    let g := twiceAdded.foldl Symbols.add .empty
    (∀ r ∈ g.types, '/' ∉ r.qualifiedName.toList) ∧
      staleSite.get? (typesAt [] (.ofString "out/x/..")) = some .directory ∧
      Beside [] (.ofString "out/x/..") g barePress.site ["out", "x"] ∧
      staleSite.get? ["out", "x"] = none ∧
      ∃ pages t', (writeSite (.ofString "out/x/..") g barePress.site fun _ => barePress).exec
          staleSite = (.ok pages, t') ∧
        t'.get? ["out", "x"] = some .directory := by
  intro g
  let written :=
    (writeSite (.ofString "out/x/..") g barePress.site fun _ => barePress).exec staleSite
  have hpages : written.1 = .ok
      [.ofString "out/x/../types/Pong.html", .ofString "out/x/../types/Ping.html"] := by
    decide +kernel
  have hrun : written = (.ok
      [.ofString "out/x/../types/Pong.html", .ofString "out/x/../types/Ping.html"],
      written.2) := by rw [← hpages]
  have hbeside : Beside [] (.ofString "out/x/..") g barePress.site ["out", "x"] :=
    ⟨by decide +kernel, by decide +kernel, by decide +kernel, by decide +kernel⟩
  have hmade : written.2.get? ["out", "x"] = some .directory := by decide +kernel
  exact ⟨by decide +kernel, by decide +kernel, hbeside, by decide +kernel, _, written.2, hrun,
    hmade⟩

end Apidoc.Site
