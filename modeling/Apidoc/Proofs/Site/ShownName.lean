import Apidoc.Proofs.Model.Declared
import Apidoc.Proofs.Model.Forest
import Apidoc.Proofs.Model.QualifiedName
import Apidoc.Proofs.Model.Span
import Apidoc.Proofs.Site.Anchor
import Apidoc.Proofs.Site.Navigation

/-!
# `Apidoc.Proofs.Site.ShownName`: the name on a page and the names in the links to it

The page of a type shows the name of the type without its package, and the record knows the package
from the file. A link has the qualified name only, and goes by the small letters in it. What it shows
is the name on the page if and only if small letters tell the package from the type
(`shownName_iff_isToldApart`).

The segments of a qualified name are those of the package and the names of the types from the outside
in (`segments_qualifiedName`). So small letters decide at two places: at the segments of the package,
and at the outermost type if there is another one inside (`Record.IsToldApart`). The names of the types
further inside do not matter, and neither does that of a type with nothing around it.
`capital_package_in_label` has a type for each place where it goes wrong.
-/

set_option autoImplicit false

namespace Apidoc

open Apidoc.Model.QualifiedName (TellApart isPackageSegment packageSegments segments
  segments_inPackage)

/-! ### The segments of a qualified name -/

namespace Model

/-- The names of a declaration and of what is around it, from the outside in. -/
def Scope.names (s : Scope) : List (List Char) := (s.chain.map fun d => d.name.toList).reverse

namespace CompilationUnit

variable {path : Files.Path} {content : Text.Bytes} {l : Located}

/-- A type with nothing around it is in the package of its file. -/
theorem qualifiedName_of_top (h : l ∈ (read path content).flatten)
    (htype : l.declaration.kind.isType = true) (howners : l.owners = []) :
    l.declaration.qualifiedName = qualifiedTypeName l.source none l.declaration.name := by
  obtain ⟨-, t, -, -, doc, helement⟩ := Proofs.forall₂_split
    (types_flatten path (Java.Reader.items content)).flip (List.mem_filter.mpr ⟨h, htype⟩)
  rw [howners] at helement
  rw [Located.declaration, helement]
  rfl

/-- The segments of a qualified name are those of the package and the names of the types. -/
theorem segments_qualifiedName (h : l ∈ (read path content).flatten)
    (htype : l.declaration.kind.isType = true) :
    segments l.declaration.qualifiedName.toList =
      packageSegments l.source.package ++ l.scope.names := by
  have hword (m : Located) (hm : m ∈ (read path content).flatten)
      (hmtype : m.declaration.kind.isType = true) :
      segments m.declaration.name.toList = [m.declaration.name.toList] :=
    Text.splitOn_of_not_mem
      (Java.Reader.plain_of_isWordText ((stands_of_mem_flatten hm).word (.inl hmtype))).2.1
  -- From the outside in: each type has one more owner than the type around it.
  generalize howners : l.owners = owners
  induction owners generalizing l with
  | nil =>
    rw [qualifiedName_of_top h htype howners, qualifiedTypeName, segments_inPackage,
      hword l h htype]
    rw [Scope.names, Scope.chain, Located.scope, howners]
    rfl
  | cons owner rest ih =>
    rcases (wellPlaced_read path content).placed l h with htop | ⟨m, hm, hl⟩
    · rw [(top_of_mem_located htop).1] at howners
      cases howners
    · have hinside := isInside_of_mem_enclosed hm hl
      rw [hinside.owners] at howners
      cases howners
      have hsource : l.source = m.source := by
        obtain ⟨e, -, rfl⟩ := List.mem_map.mp hl
        rfl
      have hnames : l.scope.names = m.scope.names ++ [l.declaration.name.toList] := by
        rw [Scope.names, Scope.chain, Located.scope, hinside.owners, List.map_cons,
          List.reverse_cons]
        rfl
      have hdotted : l.declaration.qualifiedName.toList =
          m.declaration.qualifiedName.toList ++ '.' :: l.declaration.name.toList := by
        rw [hinside.name, if_pos htype, String.toList_append, String.toList_append,
          List.append_assoc]
        rfl
      rw [hdotted, segments, Text.splitOn_append_cons (decide_eq_true rfl), hnames,
        ← List.append_assoc, hsource]
      exact congrArg₂ _ (ih hm hinside.isType rfl) (hword l h htype)

end CompilationUnit

end Model

namespace Graph.Record

/-- Small letters tell the package of a type from its name: each segment of the package starts with
one, and the outermost type does not, unless it is the type itself. -/
def IsToldApart (r : Record) : Prop :=
  (∀ segment ∈ packageSegments r.package, isPackageSegment segment = true) ∧
    (r.scope.owners ≠ [] → isPackageSegment r.scope.topLevel.name.toList = false)

instance (r : Record) : Decidable r.IsToldApart := inferInstanceAs (Decidable (_ ∧ _))

/-- Only the outermost of the names of a record matters. -/
theorem tellApart_names_iff (r : Record) :
    TellApart (packageSegments r.package) r.scope.names ↔ r.IsToldApart := by
  have hhead : r.scope.names.head? = some r.scope.topLevel.name.toList := by
    have hchain : r.scope.chain ≠ [] := List.cons_ne_nil _ _
    rw [Model.Scope.names, List.head?_reverse, List.getLast?_map,
      List.getLast?_eq_some_getLast hchain]
    rfl
  have hlength : 1 < r.scope.names.length ↔ r.scope.owners ≠ [] := by
    rw [Model.Scope.names, List.length_reverse, List.length_map, Model.Scope.chain,
      List.length_cons, ← List.length_pos_iff]
    omega
  rw [TellApart, IsToldApart, hhead, hlength]
  simp

end Graph.Record

/-! ### What links show -/

namespace Comment.Renderer

variable {r : Renderer} {scope : Option Model.Scope} {typeName : String} {found : Model.Reference}

/-- A reference leads where its qualified name leads. -/
theorem target_of_locate (h : r.locate typeName scope = some found) :
    found.target = r.resolver.locate found.name := by
  unfold locate at h
  split at h
  · cases h
    rfl
  · obtain ⟨s, -, rfl⟩ := Option.map_eq_some_iff.mp h
    rfl

end Comment.Renderer

namespace Build.Collector

open Apidoc.Comment (Renderer linkTo withMember)
open Apidoc.Comment.Target (descriptor typeAndMember)
open Apidoc.Build.Environment
open Apidoc.Files (Path Tree)
open Apidoc.Graph (Record)
open Apidoc.Model (CompilationUnit Scope primitiveTypes)
open Apidoc.Model.QualifiedName (lastSegment lastSegment_eq_iff lastSegment_simple simple
  simple_eq_iff split split_eq_iff)
open Apidoc.Site (Press)

variable {files : Tree} {paths : List Path} {c c' : Context} {e : Environment} {t : Record}

section Finished

variable (hrun : runPass files .documenting paths none c = (.ok e, c')) (fresh : c.graph = .empty)
  (ht : t ∈ c'.graph.sort.connect.types)
include hrun fresh ht

/-- The qualified name of a type in a finished graph is cut behind its package. -/
theorem segments_of_mem_finished :
    segments t.qualifiedName.toList = packageSegments t.package ++ segments t.name.toList := by
  rw [← t.lead_append_name (name_of_mem_finished hrun fresh ht).1, ← segments_inPackage,
    CompilationUnit.lead]
  split
  · rw [String.empty_append]
  · rfl

/-- The name of a type in a finished graph is made up of those of the types from the outside in. -/
theorem names_of_mem_finished : segments t.name.toList = t.scope.names := by
  have hname := segments_of_mem_finished hrun fresh ht
  obtain ⟨l, hl, content, names, rfl⟩ := exists_ofType_of_mem_finished hrun fresh ht
  obtain ⟨htype, path, hmem⟩ := exists_mem_flatten_of_mem_declaredTypes hl
  exact List.append_cancel_left
    (hname.symm.trans (CompilationUnit.segments_qualifiedName hmem htype))

/-- The qualified name of a type in a finished graph has something behind the package. -/
theorem simple_ne_empty_of_mem_finished : simple t.qualifiedName ≠ "" := by
  obtain ⟨l, hl, content, names, rfl⟩ := exists_ofType_of_mem_finished hrun fresh ht
  obtain ⟨htype, path, hmem⟩ := exists_mem_flatten_of_mem_declaredTypes hl
  have hstands := CompilationUnit.stands_of_mem_flatten hmem
  obtain ⟨hne, hdot, -⟩ := Java.Reader.plain_of_isWordText (hstands.word (.inl htype))
  have hlast : lastSegment l.declaration.qualifiedName = l.declaration.name :=
    (lastSegment_eq_iff hdot).mpr (hstands.qualified htype)
  intro hempty
  rw [← lastSegment_simple, show simple l.declaration.qualifiedName = "" from hempty] at hlast
  exact hne (congrArg String.toList hlast.symm)

/-- The qualified name of a type in a finished graph is split into its package and its name if and only
if small letters tell them apart. -/
theorem split_eq_iff_of_mem_finished :
    split t.qualifiedName = (t.package, t.name) ↔ t.IsToldApart := by
  rw [split_eq_iff (segments_of_mem_finished hrun fresh ht), names_of_mem_finished hrun fresh ht]
  exact t.tellApart_names_iff

/-- It is enough that the part behind the package is the name. -/
theorem simple_eq_iff_of_mem_finished : simple t.qualifiedName = t.name ↔ t.IsToldApart := by
  rw [simple_eq_iff (segments_of_mem_finished hrun fresh ht), names_of_mem_finished hrun fresh ht]
  exact t.tellApart_names_iff

/-- A reference to a type in a finished graph leads to a page of this site, unless the type is called
like a primitive type. -/
theorem internal_of_mem_finished {r : Renderer} {scope : Option Scope} {typeName : String}
    {found : Model.Reference} (hindex : r.resolver.index = c'.index)
    (hprimitive : t.qualifiedName ∉ primitiveTypes)
    (hfound : r.locate typeName scope = some found) (hname : found.name = t.qualifiedName) :
    found.target = .internal := by
  have hnonempty : t.qualifiedName ≠ "" := by
    obtain ⟨first, rest, hlist, -⟩ := (name_of_mem_finished hrun fresh ht).2
    rintro hempty
    rw [hempty] at hlist
    cases hlist
  have hknown : r.resolver.index.contains t.qualifiedName = true := by
    obtain ⟨l, hl, content, names, rfl⟩ := exists_ofType_of_mem_finished hrun fresh ht
    rw [hindex]
    exact (contains_index_iff hrun _).mpr ⟨l, hl, rfl⟩
  rw [Renderer.target_of_locate hfound, hname]
  exact r.resolver.locate_of_indexed hknown hnonempty hprimitive

/-- What stands for the label of a reference that writes a type is the name of the type, and the member,
if and only if small letters tell the package from the type. -/
theorem defaultLabel_eq_iff_of_mem_finished {found : Model.Reference}
    (hname : found.name = t.qualifiedName) {typeName : String} (htype : typeName ≠ "")
    (member : String) :
    Renderer.defaultLabel (some found) typeName member = withMember t.name member ↔
      t.IsToldApart := by
  have hsimple : found.simpleName = simple t.qualifiedName := congrArg simple hname
  have hne : found.simpleName ≠ "" := by
    rw [hsimple]
    exact simple_ne_empty_of_mem_finished hrun fresh ht
  rw [Renderer.defaultLabel_of_typed htype hne, Comment.withMember_inj, hsimple,
    simple_eq_iff_of_mem_finished hrun fresh ht]

end Finished

/-- The name on the page of a type and the name in a link to it are the same if and only if small letters
tell the package from the type.

Take a record of a finished graph, of a type at any nesting level. Its qualified name is split into its
package and its name if and only if they do. Take a link without a label whose reference leads to the
type. If the reference writes a type, the link shows a name, and the member behind it. That is the name
of the type if and only if small letters tell it from the package. If the reference writes a member only,
so does the link. The page of the type shows the name of the type. -/
theorem shownName_iff_isToldApart (fresh : c.graph = .empty)
    (hrun : runPass files .documenting paths none c = (.ok e, c'))
    (ht : t ∈ c'.graph.sort.connect.types) :
    (split t.qualifiedName = (t.package, t.name) ↔ t.IsToldApart) ∧
    (∀ (r : Renderer) (scope : Option Scope) (asCode : Bool) {target : String} {type : List Char}
        {fragment : Option (List Char)} {found : Model.Reference},
      typeAndMember target.toList = (type, fragment) →
      r.locate (String.ofList type) scope = some found → found.name = t.qualifiedName →
      ∃ shown, r.link target scope none asCode
          = linkTo (found.href (some (descriptor fragment)) r.root) asCode shown ∧
        (r.resolver.index = c'.index → t.qualifiedName ∉ primitiveTypes →
          found.target = .internal) ∧
        (type ≠ [] → (shown = withMember t.name (descriptor fragment) ↔ t.IsToldApart)) ∧
        (type = [] → shown = descriptor fragment)) ∧
    ∀ p : Press, (p.renderer.FindsSamples → ∃ text, p.typePage t = .ok text) ∧
      ∀ text, p.typePage t = .ok text → p.HasLines text [Press.signatureLine t] := by
  refine ⟨split_eq_iff_of_mem_finished hrun fresh ht, ?_, fun p => ⟨fun hsamples =>
    Press.typePage_ok hsamples t, fun text htext => Press.hasLines_signatureLine htext⟩⟩
  intro r scope asCode target type fragment found htarget hfound hname
  refine ⟨_, Renderer.link_eq_linkTo htarget hfound none asCode, fun hindex hprimitive => ?_,
    fun htype => ?_, ?_⟩
  · exact internal_of_mem_finished hrun fresh ht hindex hprimitive hfound hname
  · have hwritten : String.ofList type ≠ "" := by
      intro hempty
      exact htype (String.toList_ofList.symm.trans (congrArg String.toList hempty))
    exact defaultLabel_eq_iff_of_mem_finished hrun fresh ht hname hwritten _
  · rintro rfl
    exact Renderer.defaultLabel_of_untyped (some found) _

/-- A class with a class inside that has a small letter, a package with a capital letter, and a class
with a small letter that has another one inside. -/
def smallAndCapital : Tree where
  entries :=
    [(["P.java"], .file (Text.encode "package a.b; class P \x7b class q \x7b\x7d \x7d")),
      (["Road.java"], .file (Text.encode "package Acme; class Road \x7b\x7d")),
      (["outer.java"], .file (Text.encode "class outer \x7b class Inner \x7b\x7d \x7d"))]
  workingDirectory := []

/-- The files of the classes. -/
def smallAndCapitalPaths : List Path :=
  [.ofString "P.java", .ofString "Road.java", .ofString "outer.java"]

/-- The main pass over the classes succeeds, and their records are in the finished graph. -/
theorem runPass_smallAndCapital : ∃ e c',
    runPass smallAndCapital .documenting smallAndCapitalPaths none (.initial []) = (.ok e, c') ∧
    c'.index = indexOf smallAndCapital smallAndCapitalPaths ∧
    ∀ r ∈ mainRecords smallAndCapital smallAndCapitalPaths,
      ∃ names, r.withSubtypes names ∈ c'.graph.sort.connect.types := by
  have hread : Readable smallAndCapital smallAndCapitalPaths := by decide +kernel
  have hdistinct : ((mainRecords smallAndCapital smallAndCapitalPaths).map
      Record.qualifiedName).Nodup := by decide +kernel
  obtain ⟨e, hrun, -⟩ := runPass_of_readable hread (.initial [])
  exact ⟨e, _, hrun, (context_of_runPass hrun).1,
    fun r hr => exists_withSubtypes_mem_finished hrun rfl hdistinct hr⟩

/-- The class inside is shown as on its page, though its name has a small letter. -/
theorem shownName_iff_isToldApart_inside : ∃ e c',
    runPass smallAndCapital .documenting smallAndCapitalPaths none (.initial []) = (.ok e, c') ∧
    ∃ t ∈ c'.graph.sort.connect.types, t.qualifiedName = "a.b.P.q" ∧ t.IsToldApart ∧
      split t.qualifiedName = ("a.b", "P.q") ∧
      (Renderer.ofIndex c'.index).locate "a.b.P.q" none = some ⟨.internal, "a.b.P.q"⟩ ∧
      (Renderer.ofIndex c'.index).link "a.b.P.q" none none true
        = linkTo (some "../types/a.b.P.q.html") true "P.q" ∧
      ∃ text, (Press.ofIndex c'.index).typePage t = .ok text ∧
        (Press.ofIndex c'.index).HasLines text ["<p class=\"signature\"> Class P.q</p>"] := by
  obtain ⟨e, c', hrun, hindex, hfinished⟩ := runPass_smallAndCapital
  obtain ⟨r, hr, hname, hbuilt, happart, hline⟩ :
      ∃ r ∈ mainRecords smallAndCapital smallAndCapitalPaths, r.qualifiedName = "a.b.P.q" ∧
        (r.package, r.name) = ("a.b", "P.q") ∧ r.IsToldApart ∧
        Press.signatureLine r = "<p class=\"signature\"> Class P.q</p>" := by decide +kernel
  have hlocate : (Renderer.ofIndex c'.index).locate "a.b.P.q" none
      = some ⟨.internal, "a.b.P.q"⟩ := by
    rw [hindex]
    decide +kernel
  obtain ⟨names, ht⟩ := hfinished r hr
  obtain ⟨hsplit, hlinks, hpages⟩ := shownName_iff_isToldApart rfl hrun ht
  have htarget : typeAndMember "a.b.P.q".toList = ("a.b.P.q".toList, none) := by decide +kernel
  obtain ⟨shown, hlink, -, hshown, -⟩ :=
    hlinks (Renderer.ofIndex c'.index) none true htarget hlocate hname.symm
  obtain ⟨hpackage, htypeName⟩ := Prod.mk.inj hbuilt
  have hlabel : shown = "P.q" := by
    rw [(hshown (by decide)).mpr happart]
    exact (congrArg (withMember · (descriptor none)) htypeName).trans (by decide +kernel)
  obtain ⟨hpage, hlines⟩ := hpages (Press.ofIndex c'.index)
  obtain ⟨text, htext⟩ := hpage nofun
  refine ⟨e, c', hrun, _, ht, hname, happart, (hsplit.mpr happart).trans hbuilt, hlocate, ?_,
    text, htext, ?_⟩
  · rw [hlink, hlabel]
    rfl
  · rw [← hline]
    exact hlines text htext

/-- Links to two types are not called as their pages are. The package of the first one begins with a
capital letter and becomes part of the name. The second one is inside a class with a small letter, which
becomes the package. An empty link inside a type leads to the type and shows nothing. -/
theorem capital_package_in_label : ∃ e c',
    runPass smallAndCapital .documenting smallAndCapitalPaths none (.initial []) = (.ok e, c') ∧
    (∃ t ∈ c'.graph.sort.connect.types, (t.package, t.name) = ("Acme", "Road") ∧
      split t.qualifiedName = ("", "Acme.Road") ∧
      ((Renderer.ofIndex c'.index).link t.qualifiedName none none true).render
        = "<a href=\"../types/Acme.Road.html\"><code>Acme.Road</code></a>") ∧
    (∃ t ∈ c'.graph.sort.connect.types, (t.package, t.name) = ("", "outer.Inner") ∧
      split t.qualifiedName = ("outer", "Inner") ∧
      ((Renderer.ofIndex c'.index).link t.qualifiedName none none true).render
        = "<a href=\"../types/outer.Inner.html\"><code>Inner</code></a>") ∧
    ∃ t ∈ c'.graph.sort.connect.types, (t.package, t.name) = ("a.b", "P") ∧
      ((Renderer.ofIndex c'.index).link "" (some t.scope) none true).render
        = "<a href=\"../types/a.b.P.html\"><code></code></a>" := by
  obtain ⟨e, c', hrun, hindex, hfinished⟩ := runPass_smallAndCapital
  obtain ⟨road, hroad, hroadName, hroadSplit, hroadLink⟩ :
      ∃ r ∈ mainRecords smallAndCapital smallAndCapitalPaths,
        (r.package, r.name) = ("Acme", "Road") ∧ split r.qualifiedName = ("", "Acme.Road") ∧
        ((Renderer.ofIndex (indexOf smallAndCapital smallAndCapitalPaths)).link
          r.qualifiedName none none true).render
          = "<a href=\"../types/Acme.Road.html\"><code>Acme.Road</code></a>" := by decide +kernel
  obtain ⟨inner, hinner, hinnerName, hinnerSplit, hinnerLink⟩ :
      ∃ r ∈ mainRecords smallAndCapital smallAndCapitalPaths,
        (r.package, r.name) = ("", "outer.Inner") ∧ split r.qualifiedName = ("outer", "Inner") ∧
        ((Renderer.ofIndex (indexOf smallAndCapital smallAndCapitalPaths)).link
          r.qualifiedName none none true).render
          = "<a href=\"../types/outer.Inner.html\"><code>Inner</code></a>" := by decide +kernel
  obtain ⟨plain, hplain, hplainName, hplainLink⟩ :
      ∃ r ∈ mainRecords smallAndCapital smallAndCapitalPaths,
        (r.package, r.name) = ("a.b", "P") ∧
        ((Renderer.ofIndex (indexOf smallAndCapital smallAndCapitalPaths)).link
          "" (some r.scope) none true).render
          = "<a href=\"../types/a.b.P.html\"><code></code></a>" := by decide +kernel
  rw [← hindex] at hroadLink hinnerLink hplainLink
  obtain ⟨_, hroadMem⟩ := hfinished road hroad
  obtain ⟨_, hinnerMem⟩ := hfinished inner hinner
  obtain ⟨_, hplainMem⟩ := hfinished plain hplain
  exact ⟨e, c', hrun, ⟨_, hroadMem, hroadName, hroadSplit, hroadLink⟩,
    ⟨_, hinnerMem, hinnerName, hinnerSplit, hinnerLink⟩, _, hplainMem, hplainName, hplainLink⟩

end Build.Collector

end Apidoc
