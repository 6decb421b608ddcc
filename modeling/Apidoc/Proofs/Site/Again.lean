import Apidoc.Proofs.Files.Search
import Apidoc.Proofs.Java.Name
import Apidoc.Proofs.Site.Files

/-!
# `Apidoc.Proofs.Site.Again`: writing a site over the same site

A site touches few locations: those below its directory of types, its fixed files, and the
directories on the way of the output that were missing (`Written.sameOn`). Directories
that were there stay, but for those below the directory of types (`Written.directory`).
Both need that pages lie in the directory of types. They do if the names of types begin as
names (`resolve_page_of_beginsName`). A name that holds a slash further on has no page at all
(`not_mem_slash_of_pages`), because a page is never written to a directory that is not there.

A root of sources that is apart from the output is therefore seen as before by every search
(`Apart.kept`). To be apart it is not enough that neither location lies in the other. With
`..` in its path, a root may be reached through the output, and the output may be reached
through a root, and then directories on the way come and go.

The stages of a second run meet what the first one left. Once the directories are
prepared and the fixed files are written, the two trees hold the same everywhere, and the
pages that are made from them are the same too (`agree_of_writeSite_again`).
-/

set_option autoImplicit false

namespace Apidoc.Site

open Apidoc.Files
open Apidoc.Files.Tree (Agree IsSound Kept SameBelow SameOn)
open Apidoc.Graph (Record Symbols)
open Apidoc.Proofs (Preserves exec exec_bind_ok exec_bind_inv exec_get exec_pure)

variable {output : Path} {press press' : Tree → Press} {t t' u u' : Tree} {g : Symbols} {site : Info}

/-! ### Where pages are written -/

/-- A path that begins as a name starts with that name, and goes down from there. -/
theorem ofString_of_beginsName {text : String} (h : BeginsName text.toList) :
    ∃ name more, Path.ofString text = ⟨.workingDirectory, name :: more⟩ ∧ name ≠ ".." := by
  obtain ⟨c, rest, htext, hslash, hdot⟩ := h
  -- What stands before the first slash begins with the first character.
  obtain ⟨part, parts, hsplit⟩ : ∃ part parts,
      Text.splitOn (· = '/') text.toList = (c :: part) :: parts := by
    rw [htext, Text.splitOn, if_neg (by simpa using hslash)]
    split
    · exact ⟨[], [], rfl⟩
    · exact ⟨_, _, rfl⟩
  have hroot : Path.rootOf text.toList = .workingDirectory := by
    rw [htext]
    unfold Path.rootOf
    split <;> simp_all
  have hne : ∀ other : String, other.toList.head? ≠ some c → String.ofList (c :: part) ≠ other := by
    rintro other hother rfl
    rw [String.toList_ofList] at hother
    exact hother rfl
  have hempty := hne "" (by simp)
  have hone := hne "." (by simpa using hdot.symm)
  refine ⟨String.ofList (c :: part), (parts.map String.ofList).filter fun n => n ≠ "" ∧ n ≠ ".", ?_,
    hne ".." (by simpa using hdot.symm)⟩
  unfold Path.ofString
  rw [hroot, hsplit, List.map_cons, List.filter_cons_of_pos]
  rw [decide_eq_true_eq]
  exact ⟨hempty, hone⟩

/-- No location below the directory of types holds a directory. -/
def IsFlat (output : Path) (t : Tree) : Prop :=
  ∀ l, typesAt t.workingDirectory output <+: l → l ≠ typesAt t.workingDirectory output →
    t.get? l ≠ some .directory

/-- The path of a page that is written is one name. If there were more, the page would be written to
a directory that is not there. -/
theorem ofString_page_of_locate {name : String} (hname : BeginsName name.toList)
    (hflat : IsFlat output t) {l : Location} (hlocate : t.locate (pageOf output name) = .ok l) :
    ∃ entry, Path.ofString (name ++ ".html") = ⟨.workingDirectory, [entry]⟩ ∧ entry ≠ ".." := by
  have htext : BeginsName (name ++ ".html").toList := by
    rw [String.toList_append]
    exact hname.append _
  obtain ⟨first, more, hpath, hup⟩ := ofString_of_beginsName htext
  cases more with
  | nil => exact ⟨first, hpath, hup⟩
  | cons second more =>
    have hpage : pageOf output name =
        ⟨output.root, ((typesDirectory output).child first).names ++ second :: more⟩ := by
      rw [pageOf, hpath, Path.join, if_pos rfl, Path.child, List.append_assoc]
      rfl
    have hfirst : resolve t.workingDirectory ((typesDirectory output).child first) =
        typesAt t.workingDirectory output ++ [first] := by
      rw [resolve_child _ _ hup, resolve_typesDirectory]
    obtain ⟨-, hway, -⟩ := Tree.locate_eq_ok_iff.mp hlocate
    -- The way of a longer path leads through the entry of its first name.
    have hthrough : t.get? (typesAt t.workingDirectory output ++ [first]) = some .directory := by
      refine hway _ ?_
      rw [hpage]
      show _ ∈ way (startOf t.workingDirectory ((typesDirectory output).child first)) _
      rw [way_append]
      refine List.mem_append_right _ ?_
      rw [← hfirst]
      exact List.mem_cons_self
    exact absurd hthrough (hflat _ (List.prefix_append ..) (by simp))

/-- A page that is written lies in the directory of types. -/
theorem resolve_page_of_beginsName {name : String} (hname : BeginsName name.toList)
    (hflat : IsFlat output t) {l : Location} (hlocate : t.locate (pageOf output name) = .ok l) :
    ∃ entry, l = typesAt t.workingDirectory output ++ [entry] := by
  obtain ⟨entry, hpath, hup⟩ := ofString_page_of_locate hname hflat hlocate
  have hpage : pageOf output name = (typesDirectory output).child entry := by
    rw [pageOf, hpath]
    rfl
  refine ⟨entry, ?_⟩
  rw [(Tree.locate_eq_ok_iff.mp hlocate).2.2, hpage]
  exact (resolve_child _ _ hup).trans (by rw [resolve_typesDirectory])

/-- A page that is written is put into the directory of types. -/
theorem put_of_writeTypePage {r : Record} (hname : BeginsName r.qualifiedName.toList)
    (hflat : IsFlat output t) {page : Path}
    (h : exec (writeTypePage output press r) t = (.ok page, t')) :
    ∃ entry content, t' = t.put (typesAt t.workingDirectory output ++ [entry]) (.file content) := by
  obtain ⟨rfl, text, -, hwrite⟩ := writeTypePage_inv h
  obtain ⟨l, hlocate, -, rfl⟩ := Tree.write_eq_ok_iff.mp hwrite
  obtain ⟨entry, rfl⟩ := resolve_page_of_beginsName hname hflat hlocate
  exact ⟨entry, _, rfl⟩

/-- To put a file into the directory of types adds no directory below. -/
theorem IsFlat.put (h : IsFlat output t) (entry : String) (content : Text.Bytes) :
    IsFlat output (t.put (typesAt t.workingDirectory output ++ [entry]) (.file content)) := by
  intro l hbelow hne
  by_cases hl : l = typesAt t.workingDirectory output ++ [entry]
  · subst hl
    rw [Tree.get?_put_self t _ _ (by simp)]
    nofun
  · rw [Tree.get?_put_of_ne t _ hl]
    exact h l hbelow hne

/-- Writing pages touches nothing but what lies in the directory of types. The induction is on
the records, and carries that there is no directory below. -/
theorem sameOn_of_pages {rs : List Record} (hnames : ∀ r ∈ rs, BeginsName r.qualifiedName.toList)
    (hflat : IsFlat output t) {pages : List Path}
    (h : exec (rs.mapM (writeTypePage output press)) t = (.ok pages, t')) {S : Location → Bool}
    (hS : ∀ l, typesAt t.workingDirectory output <+: l → l ≠ typesAt t.workingDirectory output →
      S l = false) : SameOn S t t' := by
  induction rs generalizing t pages with
  | nil =>
    rw [List.mapM_nil, exec_pure] at h
    cases h
    exact SameOn.refl S _
  | cons r rest ih =>
    rw [List.mapM_cons] at h
    obtain ⟨page, t₁, hfirst, h⟩ := exec_bind_inv h
    obtain ⟨more, t₂, hrest, h⟩ := exec_bind_inv h
    rw [exec_pure] at h
    cases h
    obtain ⟨entry, content, rfl⟩ :=
      put_of_writeTypePage (hnames r List.mem_cons_self) hflat hfirst
    have hput := Tree.sameOn_put t (.file content) (hS (typesAt t.workingDirectory output ++ [entry])
      (List.prefix_append ..) (by simp))
    exact hput.trans (ih (fun s hs => hnames s (List.mem_cons_of_mem _ hs))
      (hflat.put entry content) hrest hS)

/-- A path with a name on either side of a slash has two names or more. -/
theorem two_le_length_names {front rest : List Char} {c d : Char} (hc : c ∈ front)
    (hcPlain : c ≠ '/' ∧ c ≠ '.') (hd : d ∈ rest) (hdPlain : d ≠ '/' ∧ d ≠ '.') :
    2 ≤ (Path.ofString (String.ofList (front ++ '/' :: rest))).names.length := by
  -- A part with a character that is neither a slash nor a dot is kept.
  have hkept : ∀ {x : Char} {cs : List Char}, x ∈ cs → x ≠ '/' ∧ x ≠ '.' →
      0 < (((Text.splitOn (· = '/') cs).map String.ofList).filter
        fun n => n ≠ "" ∧ n ≠ ".").length := by
    intro x cs hx hplain
    rw [← Text.join_splitOn '/' cs] at hx
    obtain hslash | ⟨part, hpart, hmem⟩ := Text.mem_join hx
    · exact absurd (List.mem_singleton.mp hslash) hplain.1
    · refine List.length_pos_of_mem (a := String.ofList part) (List.mem_filter.mpr
        ⟨List.mem_map.mpr ⟨part, hpart, rfl⟩, ?_⟩)
      have hne : ∀ other : String, x ∉ other.toList → String.ofList part ≠ other := by
        rintro other hother rfl
        rw [String.toList_ofList] at hother
        exact hother hmem
      rw [decide_eq_true_eq]
      exact ⟨hne "" (by simp), hne "." (by simpa using hplain.2)⟩
  rw [Path.ofString, String.toList_ofList, Text.splitOn_append_cons (decide_eq_true rfl),
    List.map_append, List.filter_append, List.length_append]
  have hbefore := hkept hc hcPlain
  have hbehind := hkept hd hdPlain
  omega

/-- A name whose page has a path of one name has no slash. -/
theorem not_mem_slash_of_ofString_page {name entry : String} (hname : BeginsName name.toList)
    (h : Path.ofString (name ++ ".html") = ⟨.workingDirectory, [entry]⟩) : '/' ∉ name.toList := by
  intro hslash
  obtain ⟨front, rest, hsplit⟩ := List.append_of_mem hslash
  obtain ⟨c, more, hbegins, hplain⟩ := hname
  -- The name does not begin with the slash, and the page ends behind it.
  have hfront : c ∈ front := by
    cases front with
    | nil =>
      rw [hsplit] at hbegins
      exact absurd (List.cons.inj hbegins).1.symm hplain.1
    | cons x front =>
      rw [hsplit] at hbegins
      rw [(List.cons.inj hbegins).1]
      exact List.mem_cons_self
  have htext : name ++ ".html" = String.ofList (front ++ '/' :: (rest ++ ".html".toList)) := by
    rw [← String.toList_inj, String.toList_append, hsplit]
    simp only [String.toList_ofList, List.append_assoc, List.cons_append]
  have hlength := two_le_length_names hfront hplain
    (List.mem_append_right rest (by simp : 'h' ∈ ".html".toList)) (by decide)
  rw [← htext, h] at hlength
  exact absurd hlength (by simp)

/-- Only names without slashes have pages that are written. -/
theorem not_mem_slash_of_pages {rs : List Record}
    (hnames : ∀ r ∈ rs, BeginsName r.qualifiedName.toList) (hflat : IsFlat output t) {pages : List Path}
    (h : exec (rs.mapM (writeTypePage output press)) t = (.ok pages, t')) :
    ∀ r ∈ rs, '/' ∉ r.qualifiedName.toList := by
  induction rs generalizing t t' pages with
  | nil => exact List.forall_mem_nil _
  | cons r rest ih =>
    rw [List.mapM_cons] at h
    obtain ⟨page, t₁, hfirst, h⟩ := exec_bind_inv h
    obtain ⟨more, t₂, hrest, -⟩ := exec_bind_inv h
    have hname := hnames r List.mem_cons_self
    have hslash : '/' ∉ r.qualifiedName.toList := by
      obtain ⟨rfl, text, -, hwrite⟩ := writeTypePage_inv hfirst
      obtain ⟨l, hlocate, -, -⟩ := Tree.write_eq_ok_iff.mp hwrite
      obtain ⟨entry, hpath, -⟩ := ofString_page_of_locate hname hflat hlocate
      exact not_mem_slash_of_ofString_page hname hpath
    obtain ⟨entry, content, rfl⟩ := put_of_writeTypePage hname hflat hfirst
    have hmore := ih (fun s hs => hnames s (List.mem_cons_of_mem _ hs)) (hflat.put entry content)
      hrest
    exact List.forall_mem_cons.mpr ⟨hslash, hmore⟩

/-- Writing pages leaves every directory where it is. -/
theorem preserves_directory_pages (output : Path) (press : Tree → Press) (d : Location)
    (rs : List Record) :
    Preserves (fun t => t.get? d = some .directory) (rs.mapM (writeTypePage output press)) := by
  refine Preserves.mapM fun r _ => ?_
  unfold writeTypePage
  refine Preserves.bind (fun t ht => ht) fun files => ?_
  refine Preserves.bind ?_ fun text => ?_
  · -- Making the text of a page does not touch the files.
    exact fun t ht => ht
  · exact Preserves.bind (preserves_directory_write d _ _) fun _ t ht => ht

/-! ### What a written site touches -/

/-- The prepared tree, with the fixed files, has nothing but pages to come. -/
theorem isFlat_putFiles {s : Tree} (h : Prepared output t s) :
    IsFlat output (putFiles (resolve t.workingDirectory output) s (fixedFiles g site)) := by
  intro l hbelow hne
  rw [workingDirectory_putFiles, h.workingDirectory] at hbelow hne
  have hfixed : ∀ f ∈ fixedFiles g site, l ≠ resolve t.workingDirectory output ++ [f.1] := by
    rintro f hf rfl
    exact not_prefix_fixed t.workingDirectory output hf hbelow
  rw [get?_putFiles_of_ne _ hfixed s, h.empty l hbelow hne]
  nofun

/-- A site in its stages: the prepared tree, that with the fixed files, and that with the
pages, of which only the directory of types differs from the one before. -/
structure Written (output : Path) (g : Symbols) (site : Info) (press : Tree → Press)
    (t s t' : Tree) : Prop where
  prepared : Prepared output t s
  pages : ∃ pages, exec (g.types.mapM (writeTypePage output press))
    (putFiles (resolve t.workingDirectory output) s (fixedFiles g site)) = (.ok pages, t')
  same : ∀ S : Location → Bool, (∀ l, typesAt t.workingDirectory output <+: l →
    l ≠ typesAt t.workingDirectory output → S l = false) →
    SameOn S (putFiles (resolve t.workingDirectory output) s (fixedFiles g site)) t'
  directories : ∀ d, s.get? d = some .directory → t'.get? d = some .directory

/-- A site that was written went through its stages. -/
theorem written_of_writeSite (hnames : ∀ r ∈ g.types, BeginsName r.qualifiedName.toList)
    (hsound : t.get? (typesAt t.workingDirectory output) = none → t.IsSound) {pages : List Path}
    (h : exec (writeSite output g site press) t = (.ok pages, t')) :
    ∃ s, Written output g site press t s t' := by
  obtain ⟨s, hprepared, hfixed, hpages⟩ := writeSite_stages hsound h
  refine ⟨s, hprepared, ⟨pages, hpages⟩, fun S hS => ?_, fun d hd => ?_⟩
  · refine sameOn_of_pages hnames (isFlat_putFiles hprepared) hpages ?_
    rw [workingDirectory_putFiles, hprepared.workingDirectory]
    exact hS
  · have hkept := preserves_directory_pages output press d g.types _ (hfixed d hd)
    rw [hpages] at hkept
    exact hkept

namespace Written

variable {s : Tree}

/-- The working directory stays. -/
theorem workingDirectory_eq (h : Written output g site press t s t') :
    t'.workingDirectory = t.workingDirectory := by
  rw [(h.same (fun _ => false) fun _ _ _ => rfl).workingDirectory, workingDirectory_putFiles,
    h.prepared.workingDirectory]

/-- The directory of types is there. -/
theorem types (h : Written output g site press t s t') :
    t'.get? (typesAt t.workingDirectory output) = some .directory :=
  h.directories _ h.prepared.types

/-- What is not in the directory of types is as it was before the pages were written. -/
theorem get?_eq (h : Written output g site press t s t') {l : Location}
    (hl : ¬ typesAt t.workingDirectory output <+: l) :
    t'.get? l = (putFiles (resolve t.workingDirectory output) s (fixedFiles g site)).get? l :=
  Tree.get?_eq_of_sameOn (typesAt t.workingDirectory output <+: ·)
    (fun S hS => h.same S fun k hk _ => hS k hk) hl

/-- The fixed files are there, with their contents. -/
theorem fixed (h : Written output g site press t s t') {f : String × String}
    (hf : f ∈ fixedFiles g site) :
    t'.get? (resolve t.workingDirectory output ++ [f.1]) = some (.file (Text.encode f.2)) := by
  have hnames : ((fixedFiles g site).map (·.1)).Nodup := by
    rw [names_fixedFiles]
    decide
  rw [h.get?_eq (not_prefix_fixed t.workingDirectory output hf)]
  exact get?_putFiles hnames s hf

/-- A site touches the directory of types, its fixed files, and missing directories on the way
of the output. Everywhere else the tree is the same, in the same order. -/
theorem sameOn (h : Written output g site press t s t') {S : Location → Bool}
    (htypes : ∀ l, typesAt t.workingDirectory output <+: l → S l = false)
    (hfixed : ∀ f ∈ fixedFiles g site, S (resolve t.workingDirectory output ++ [f.1]) = false)
    (hway : ∀ l ∈ onWay t.workingDirectory output, t.get? l = none → S l = false) :
    SameOn S t t' :=
  ((h.prepared.same S htypes hway).trans (sameOn_putFiles _ hfixed s)).trans
    (h.same S fun l hl _ => htypes l hl)

/-- A directory stays one, unless it lies below the directory of types. -/
theorem directory (h : Written output g site press t s t') {d : Location}
    (hd : t.get? d = some .directory)
    (htypes : typesAt t.workingDirectory output <+: d → d = typesAt t.workingDirectory output) :
    t'.get? d = some .directory := by
  refine h.directories d ?_
  by_cases hbelow : typesAt t.workingDirectory output <+: d
  · rw [htypes hbelow]
    exact h.prepared.types
  · rcases h.prepared.other d hbelow with hsame | ⟨-, hnew, -⟩
    · rw [hsame, hd]
    · exact hnew

end Written

/-! ### Roots apart from the output -/

/-- The output and a root of sources are apart: neither lies in the other, and their paths do not
wander into each other on the way. -/
structure Apart (t : Tree) (output root : Path) : Prop where
  rootOutside : ¬ resolve t.workingDirectory output <+: resolve t.workingDirectory root
  outputOutside : ¬ resolve t.workingDirectory root <+: resolve t.workingDirectory output
  /-- The directories that the path of the root leaves by `..` are there, and none of them is one
  that the site removes. -/
  rootWay : ∀ d ∈ leaving (startOf t.workingDirectory root) root.names,
    t.get? d = some .directory ∧
      (typesAt t.workingDirectory output <+: d → d = typesAt t.workingDirectory output)
  /-- The directories that the path of the output leaves by `..` are there as far as they are in
  the root, so that none has to be made. -/
  outputWay : ∀ d ∈ leaving (startOf t.workingDirectory output) output.names,
    resolve t.workingDirectory root <+: d → t.get? d ≠ none

/-- Paths without `..` are apart if neither location lies in the other. -/
theorem apart_of_straight {root : Path} (houtput : ".." ∉ output.names) (hroot : ".." ∉ root.names)
    (hrootOutside : ¬ resolve t.workingDirectory output <+: resolve t.workingDirectory root)
    (houtputOutside : ¬ resolve t.workingDirectory root <+: resolve t.workingDirectory output) :
    Apart t output root where
  rootOutside := hrootOutside
  outputOutside := houtputOutside
  rootWay := by
    rw [leaving_eq_nil hroot]
    nofun
  outputWay := by
    rw [leaving_eq_nil houtput]
    nofun

namespace Apart

variable {root : Path}

/-- No location lies in both. -/
theorem not_both (h : Apart t output root) {l : Location}
    (houtput : resolve t.workingDirectory output <+: l)
    (hroot : resolve t.workingDirectory root <+: l) : False := by
  rcases List.prefix_or_prefix_of_prefix houtput hroot with hinside | hinside
  · exact h.rootOutside hinside
  · exact h.outputOutside hinside

/-- Nothing in the root is made on the way of the output. -/
theorem ne_none_of_mem_onWay (h : Apart t output root) {l : Location}
    (hway : l ∈ onWay t.workingDirectory output) (hroot : resolve t.workingDirectory root <+: l) :
    t.get? l ≠ none := by
  rcases above_or_leaving_of_mem_onWay hway with habove | hleft
  · exact absurd (hroot.trans habove) h.outputOutside
  · exact h.outputWay l hleft hroot

/-- A site leaves the root and what lies below as it was. -/
theorem sameOn (hapart : Apart t output root) {s : Tree} (h : Written output g site press t s t') :
    SameOn (resolve t.workingDirectory root).isPrefixOf t t' := by
  have hnot : ∀ l, resolve t.workingDirectory output <+: l →
      (resolve t.workingDirectory root).isPrefixOf l = false := by
    intro l hl
    rw [← Bool.not_eq_true, List.isPrefixOf_iff_prefix]
    exact hapart.not_both hl
  refine h.sameOn (fun l hl => hnot l ?_) (fun f _ => hnot _ (List.prefix_append ..)) ?_
  · have htypes : resolve t.workingDirectory output <+: typesAt t.workingDirectory output :=
      List.prefix_append ..
    exact htypes.trans hl
  · intro l hway hmissing
    rw [← Bool.not_eq_true, List.isPrefixOf_iff_prefix]
    exact fun hroot => hapart.ne_none_of_mem_onWay hway hroot hmissing

/-- A directory on the way of the root stays there. -/
theorem directory_of_mem_wayOf (hapart : Apart t output root) {s : Tree}
    (h : Written output g site press t s t') {d : Location}
    (hway : d ∈ wayOf t.workingDirectory root) (hd : t.get? d = some .directory) :
    t'.get? d = some .directory := by
  refine h.directory hd fun htypes => ?_
  rcases above_or_leaving_of_mem_way hway with habove | hleft
  · have hinside : resolve t.workingDirectory output <+: resolve t.workingDirectory root :=
      (List.prefix_append _ ["types"]).trans (htypes.trans habove)
    exact absurd hinside hapart.rootOutside
  · exact (hapart.rootWay d hleft).2 htypes

/-- Searches below a root that is apart from the output see no difference after a site was
written. -/
theorem kept (hapart : Apart t output root) (hsound : t.IsSound) {s : Tree}
    (h : Written output g site press t s t') : Kept root t t' := by
  have hsame := hapart.sameOn h
  by_cases hbefore : t.isDirectory root = .ok true
  -- The root is there, and its way stays.
  · obtain ⟨l, hlocate, -⟩ := Tree.isDirectory_iff.mp hbefore
    have hl := Tree.eq_resolve_of_locate hlocate
    subst hl
    refine Or.inl ⟨hlocate, ?_, hsame, hsound.names⟩
    refine Tree.locate_of_directories hlocate h.workingDirectory_eq fun d hd => ?_
    exact hapart.directory_of_mem_wayOf h hd ((Tree.locate_eq_ok_iff.mp hlocate).2.1 d hd)
  -- If it were there afterwards, it would have been there before, with its whole way.
  · refine Or.inr ⟨hbefore, fun hafter => hbefore ?_⟩
    obtain ⟨l, hlocate, hdirectory⟩ := Tree.isDirectory_iff.mp hafter
    obtain ⟨hnameable, -, rfl⟩ := Tree.locate_eq_ok_iff.mp hlocate
    rw [h.workingDirectory_eq] at hdirectory
    have hroot : t.get? (resolve t.workingDirectory root) = some .directory := by
      rw [← hsame.get?_eq (List.isPrefixOf_iff_prefix.mpr List.prefix_rfl), hdirectory]
    refine Tree.isDirectory_iff.mpr ⟨resolve t.workingDirectory root, ?_, hroot⟩
    refine Tree.locate_eq_ok_iff.mpr ⟨hnameable, fun d hd => ?_, rfl⟩
    rcases above_or_leaving_of_mem_way hd with habove | hleft
    · have habove : d <+: resolve t.workingDirectory root := habove
      by_cases hend : d = resolve t.workingDirectory root
      · rw [hend, hroot]
      · exact hsound.directory_above habove hend (by rw [hroot]; nofun)
    · exact (hapart.rootWay d hleft).1

end Apart

/-! ### Writing it again -/

/-- Pages that are made in the same way, from trees that hold the same, keep the trees alike. -/
theorem agree_of_pages (hpress : ∀ a b, Agree a b → press' b = press a) {rs : List Record}
    (h : Agree t u) {pages pages' : List Path}
    (hpages : exec (rs.mapM (writeTypePage output press)) t = (.ok pages, t'))
    (hpages' : exec (rs.mapM (writeTypePage output press')) u = (.ok pages', u')) :
    Agree t' u' := by
  induction rs generalizing t u pages pages' with
  | nil =>
    rw [List.mapM_nil, exec_pure] at hpages hpages'
    cases hpages
    cases hpages'
    exact h
  | cons r rest ih =>
    rw [List.mapM_cons] at hpages hpages'
    obtain ⟨page, t₁, hfirst, hpages⟩ := exec_bind_inv hpages
    obtain ⟨page', u₁, hfirst', hpages'⟩ := exec_bind_inv hpages'
    obtain ⟨more, t₂, hrest, hpages⟩ := exec_bind_inv hpages
    obtain ⟨more', u₂, hrest', hpages'⟩ := exec_bind_inv hpages'
    rw [exec_pure] at hpages hpages'
    cases hpages
    cases hpages'
    refine ih ?_ hrest hrest'
    -- Both runs write the same text to the same path.
    obtain ⟨rfl, text, hpage, hwrite⟩ := writeTypePage_inv hfirst
    obtain ⟨rfl, text', hpage', hwrite'⟩ := writeTypePage_inv hfirst'
    rw [hpress t u h, hpage] at hpage'
    cases hpage'
    obtain ⟨l, hlocate, -, rfl⟩ := Tree.write_eq_ok_iff.mp hwrite
    obtain ⟨l', hlocate', -, rfl⟩ := Tree.write_eq_ok_iff.mp hwrite'
    rw [h.locate_eq, hlocate] at hlocate'
    cases hlocate'
    exact h.put l _

/-- A site that is written over itself, with pages made in the same way, leaves every location
as it is. -/
theorem agree_of_writeSite_again (hpress : ∀ a b, Agree a b → press' b = press a) {s s' t'' : Tree}
    (h : Written output g site press t s t') (h' : Written output g site press' t' s' t'') :
    Agree t' t'' := by
  obtain ⟨pages, hpages⟩ := h.pages
  obtain ⟨pages', hpages'⟩ := h'.pages
  rw [h.workingDirectory_eq] at hpages'
  refine agree_of_pages hpress ?_ hpages hpages'
  have hprepared := h'.prepared
  refine ⟨?_, fun l => ?_⟩
  · rw [workingDirectory_putFiles, workingDirectory_putFiles, hprepared.workingDirectory,
      h.prepared.workingDirectory, h.workingDirectory_eq]
  · have hnames : ((fixedFiles g site).map (·.1)).Nodup := by
      rw [names_fixedFiles]
      decide
    by_cases hfixed : ∃ f ∈ fixedFiles g site, l = resolve t.workingDirectory output ++ [f.1]
    -- A fixed file is written in both runs.
    · obtain ⟨f, hf, rfl⟩ := hfixed
      rw [get?_putFiles hnames _ hf, get?_putFiles hnames _ hf]
    have hother : ∀ f ∈ fixedFiles g site, l ≠ resolve t.workingDirectory output ++ [f.1] :=
      fun f hf heq => hfixed ⟨f, hf, heq⟩
    by_cases hbelow : typesAt t.workingDirectory output <+: l
    -- In the directory of types both runs start from nothing.
    · rw [get?_putFiles_of_ne _ hother, get?_putFiles_of_ne _ hother]
      have htypes := hprepared.types
      have hempty := hprepared.empty l
      rw [h.workingDirectory_eq] at htypes hempty
      by_cases htop : l = typesAt t.workingDirectory output
      · rw [htop, htypes, h.prepared.types]
      · rw [hempty hbelow htop, h.prepared.empty l hbelow htop]
    -- Everywhere else the second run finds what the first one left, the way included.
    · rw [← h.get?_eq hbelow, get?_putFiles_of_ne _ hother]
      have hcases := hprepared.other l
      rw [h.workingDirectory_eq] at hcases
      rcases hcases hbelow with hsame | ⟨hmissing, -, hway⟩
      · exact hsame
      · have hthere := h.directories l (h.prepared.way l hway)
        rw [hthere] at hmissing
        cases hmissing

end Apidoc.Site
