import Apidoc.Proofs.Comment.Reference
import Apidoc.Proofs.Model.Qualify
import Apidoc.Proofs.Model.Reference
import Apidoc.Proofs.Model.Signature
import Apidoc.Proofs.Site.Link
import Apidoc.Proofs.Site.Page

/-!
# `Apidoc.Proofs.Site.Anchor`: links to members and the sections they lead to

A link to a member has the canonical form of its descriptor as the fragment, and the
section of the member has its signature as the `id`. The two are written by different
code. They meet if the names are plain and the parameter types are settled
(`normalize_declaredName`), that is, if erasing them again changes nothing.

A declaration of several variables has one section, which goes by the first of them.
`section_of_link` is the result for the types of a finished graph, and
`second_variable_without_section` shows the link to another variable.
-/

set_option autoImplicit false

namespace Apidoc.Model

open Apidoc.Java
open Apidoc.Text (join)

namespace Declaration

/-- The names that a member declares: its signature if it has parameters, and otherwise its
variables. -/
def declaredNames (d : Declaration) : List String :=
  match d.kind with
  | .method | .constructor => [d.signature]
  | _ => d.variableNames

/-- The names of a member are plain, and its parameter types are settled. -/
structure IsPlain (d : Declaration) : Prop where
  names : ∀ name ∈ d.name :: d.variableNames, IsPlainName name
  types : ∀ p ∈ d.parameters, TypeName.IsSettled p.type.toList

instance (d : Declaration) : Decidable d.IsPlain :=
  decidable_of_iff ((∀ name ∈ d.name :: d.variableNames, IsPlainName name) ∧
      ∀ p ∈ d.parameters, TypeName.IsSettled p.type.toList)
    ⟨fun h => ⟨h.1, h.2⟩, fun h => ⟨h.names, h.types⟩⟩

/-- A name that a plain member declares is its own canonical form. -/
theorem IsPlain.normalize_declaredName {d : Declaration} (h : d.IsPlain) {name : String}
    (hname : name ∈ d.declaredNames) :
    Descriptor.normalize name.toList = name.toList ∧ name ≠ "" := by
  by_cases hkind : d.kind = .method ∨ d.kind = .constructor
  · have hsignature : name = d.signature := by
      unfold declaredNames at hname
      rcases hkind with hkind | hkind <;> rw [hkind] at hname <;> exact List.mem_singleton.mp hname
    have hplain : IsPlainName d.name := h.names d.name List.mem_cons_self
    refine ⟨?_, ?_⟩
    · rw [hsignature, toList_signature hkind]
      refine Descriptor.normalize_signature hplain fun t ht => ?_
      obtain ⟨p, hp, rfl⟩ := List.mem_map.mp ht
      exact h.types p hp
    · rintro rfl
      have hempty := toList_signature hkind
      rw [← hsignature] at hempty
      exact absurd hempty.symm (by simp)
  · have hvariable : name ∈ d.variableNames := by
      unfold declaredNames at hname
      split at hname
      · rename_i hmethod
        exact absurd (.inl hmethod) hkind
      · rename_i hconstructor
        exact absurd (.inr hconstructor) hkind
      · exact hname
    have hplain := h.names name (List.mem_cons_of_mem _ hvariable)
    exact ⟨Descriptor.normalize_of_plain hplain, hplain.nonempty⟩

end Declaration

/-- The first name that a member declares is its signature. -/
theorem CompilationUnit.FromItem.head?_declaredNames {d : Declaration} (h : FromItem d)
    (hkind : d.kind.isType = false) {name : String} (hname : name ∈ d.declaredNames) :
    d.declaredNames.head? = some d.signature := by
  cases h with
  | type source owner doc head => cases hkind
  | method | constructor | constant => rfl
  | field owner doc head =>
    -- The field goes by the first of its variables, and there is one.
    cases hnames : head.variableNames with
    | nil =>
      exact absurd (hnames ▸ hname : name ∈ ([] : List String)) List.not_mem_nil
    | cons first rest =>
      show head.variableNames.head? = some (head.variableNames.headD "")
      rw [hnames]
      rfl

end Apidoc.Model

namespace Apidoc.Build.Collector

open Apidoc.Comment (Renderer linkTo)
open Apidoc.Build.Environment
open Apidoc.Files (Path Tree)
open Apidoc.Graph (Member Record)
open Apidoc.Html (escape)
open Apidoc.Java (IsPlainName)
open Apidoc.Model (CompilationUnit Located Resolver Scope primitiveTypes)
open Apidoc.Site (Press)
open Apidoc.Text (cutAt_append_cons)

variable {files : Tree} {paths : List Path} {c c' : Context} {e : Environment}

/-- A declaration directly inside a declared type comes from an item. -/
theorem fromItem_of_mem_members {l : Located} (hl : l ∈ declaredTypes files paths)
    {index : Model.Index} {content : Text.Bytes} {m : Member}
    (hm : m ∈ (Record.ofType index content l).members) :
    CompilationUnit.FromItem m.declaration := by
  obtain ⟨inner, hinner, -, rfl⟩ := Record.mem_members_ofType.mp hm
  obtain ⟨-, path, top, hlocated, hl⟩ := exists_located_of_mem_declaredTypes hl
  have hinside : inner ∈ top.flatten :=
    Located.mem_flatten_of_mem_enclosed hl hinner
  exact CompilationUnit.fromItem_of_mem_flatten hlocated hinside _ List.mem_cons_self

/-- A resolver finds a plain name of an indexed type that means itself on this site. -/
theorem classify_of_indexed (r : Resolver) {name : String} {scope : Option Scope}
    (hself : r.qualify name scope = name) (hknown : r.index.contains name = true)
    (hnonempty : name ≠ "") (hprimitive : name ∉ primitiveTypes) :
    r.classify name scope = ⟨.internal, name⟩ := by
  rw [Resolver.classify, hself, r.locate_of_indexed hknown hnonempty hprimitive]

/-- A link to a member of a plainly named type leads to the page of the type, with the descriptor of the
member as fragment, if that is its own canonical form. -/
theorem link_of_plain (r : Renderer) {type name : String} {scope : Option Scope}
    (htype : IsPlainName type) (hprimitive : type ∉ primitiveTypes)
    (hknown : r.resolver.index.contains type = true)
    (hself : r.resolver.qualify type scope = type)
    (hnormal : Java.Descriptor.normalize name.toList = name.toList) (hnonempty : name ≠ "")
    (label : Option String) (asCode : Bool) :
    ∃ shown, r.link (type ++ "#" ++ name) scope label asCode
      = linkTo (some (r.root ++ "types/" ++ type ++ ".html#" ++ name)) asCode shown := by
  -- The type is cut off at the sign.
  have htarget : Comment.Target.typeAndMember (type ++ "#" ++ name).toList
      = (type.toList, some name.toList) := by
    rw [String.toList_append, String.toList_append, List.append_assoc]
    exact cutAt_append_cons (htype.not_mem (by decide)) name.toList
  have hfound : r.locate (String.ofList type.toList) scope = some ⟨.internal, type⟩ := by
    rw [String.ofList_toList, Renderer.locate, if_pos htype.nonempty,
      classify_of_indexed r.resolver hself hknown htype.nonempty hprimitive]
  have hdescriptor : Comment.Target.descriptor (some name.toList) = name := by
    rw [Comment.Target.descriptor, hnormal, String.ofList_toList]
  obtain ⟨shown, hlink⟩ := r.link_of_locate htarget hfound label asCode
  refine ⟨shown, hlink.trans ?_⟩
  have haddress : r.root ++ "types/" ++ type ++ ".html" ++ ("#" ++ name)
      = r.root ++ "types/" ++ type ++ ".html#" ++ name := by
    simp only [String.append_assoc]
    rfl
  rw [hdescriptor, Model.Reference.href]
  simp only [if_neg hnonempty, haddress]

/-- Every name that a documented member declares can be linked to. Take a record of a finished graph and
one of its visible members, both plainly named. A link to the member by any name that it declares leads
to the page of the type, with the name as fragment. The first of these names is the signature of the
member. With that name, the fragment is the `id` of the section that the page has for the member. -/
theorem section_of_link (fresh : c.graph = .empty)
    (hrun : runPass files .documenting paths none c = (.ok e, c')) (r : Renderer)
    (hindex : r.resolver.index = c'.index) {t : Record} (ht : t ∈ c'.graph.sort.connect.types)
    (htype : IsPlainName t.qualifiedName) (hprimitive : t.qualifiedName ∉ primitiveTypes)
    {m : Member} (hm : m ∈ t.visibleMembers) (hmember : m.declaration.IsPlain) {name : String}
    (hname : name ∈ m.declaration.declaredNames) {scope : Option Scope}
    (hscope : (scope <|> r.resolver.scope) = none ∨
      r.resolver.qualify t.qualifiedName scope = t.qualifiedName)
    (label : Option String) (asCode : Bool) :
    (∃ shown, r.link (t.qualifiedName ++ "#" ++ name) scope label asCode
      = linkTo (some (r.root ++ "types/" ++ t.qualifiedName ++ ".html#" ++ name)) asCode shown) ∧
    m.declaration.declaredNames.head? = some m.id ∧
    (name = m.id → ∀ p : Press,
      (p.renderer.FindsSamples → ∃ text, p.typePage t = .ok text) ∧
      ∀ text, p.typePage t = .ok text → ∃ ls, p.memberSection t m = .ok ls ∧ p.HasLines text ls ∧
        ls.head? = some s!"<section id=\"{escape name}\">") := by
  obtain ⟨l, hl, content, names, rfl⟩ := exists_ofType_of_mem_finished hrun fresh ht
  have hmember' : m ∈ (Record.ofType c'.index content l).members := Record.mem_of_mem_visible hm
  have hknown : r.resolver.index.contains l.declaration.qualifiedName = true := by
    rw [hindex]
    exact (contains_index_iff hrun _).mpr ⟨l, hl, rfl⟩
  obtain ⟨hnormal, hnonempty⟩ := hmember.normalize_declaredName hname
  refine ⟨?_, ?_, ?_⟩
  · refine link_of_plain r htype hprimitive hknown ?_ hnormal hnonempty label asCode
    rcases hscope with hnone | hself
    · rw [r.resolver.qualify_of_plain htype, hnone]
      exact Model.Index.qualify_none _ htype
    · exact hself
  · exact (fromItem_of_mem_members hl hmember').head?_declaredNames
      (Record.scope_of_mem_members hmember').1 hname
  · rintro rfl p
    refine ⟨fun hsamples => Press.typePage_ok hsamples _, fun text htext => ?_⟩
    obtain ⟨ls, hls, hpage⟩ := Press.hasLines_of_typePage htext hm
    obtain ⟨header, comment, -, hlines⟩ := Press.memberSection_inv hls
    exact ⟨ls, hls, hpage, by rw [hlines]; rfl⟩

/-- A class with a declaration of two variables, a method with an array, and a method with an array
whose brackets are annotated, with a blank after the sign of the annotation. -/
def twoVariables : Tree where
  entries :=
    [(["C.java"], .file (Text.encode ("public class C \x7b public int a, b; " ++
      "public void put(String[] x, int y) \x7b\x7d public void get(String @ A [] x) \x7b\x7d \x7d")))]
  workingDirectory := []

/-- The file of the class. -/
def twoVariablesPaths : List Path := [.ofString "C.java"]

/-- What matters of a member here: its `id`, the names that it declares, and whether it is plain. -/
def memberRow (m : Member) : String × List String × Bool :=
  (m.id, m.declaration.declaredNames, decide m.declaration.IsPlain)

/-- The rows of the members of the class. -/
def twoVariablesRows : List (String × List String × Bool) :=
  [("a", ["a", "b"], true), ("put(String[],int)", ["put(String[],int)"], true),
    ("get(String@A[])", ["get(String@A[])"], false)]

/-- There is one record, with these members. -/
theorem records_twoVariables :
    (mainRecords twoVariables twoVariablesPaths).map
        (fun t => (t.qualifiedName, t.visibleMembers.map memberRow))
      = [("C", twoVariablesRows)] := by decide +kernel

/-- The main pass over the class succeeds, and its record is in the finished graph. -/
theorem runPass_twoVariables :
    ∃ e c', runPass twoVariables .documenting twoVariablesPaths none (.initial []) = (.ok e, c') ∧
      c'.index = indexOf twoVariables twoVariablesPaths ∧
      ∃ t ∈ c'.graph.sort.connect.types, t.qualifiedName = "C" ∧
        t.visibleMembers.map memberRow = twoVariablesRows := by
  have hread : Readable twoVariables twoVariablesPaths := by decide +kernel
  obtain ⟨e, hrun, -⟩ := runPass_of_readable hread (.initial [])
  obtain ⟨r, hrecords, hr⟩ := List.map_eq_singleton_iff.mp records_twoVariables
  obtain ⟨names, ht⟩ := exists_withSubtypes_mem_finished_of_one hrun rfl hrecords
  exact ⟨e, _, hrun, (context_of_runPass hrun).1, _, ht, congrArg Prod.fst hr, congrArg Prod.snd hr⟩

/-- The link to the method with an array leads to its section. -/
theorem section_of_link_put :
    ∃ e c', runPass twoVariables .documenting twoVariablesPaths none (.initial []) = (.ok e, c') ∧
      ∃ t ∈ c'.graph.sort.connect.types, t.qualifiedName = "C" ∧
        IsPlainName t.qualifiedName ∧ t.qualifiedName ∉ primitiveTypes ∧
        ∃ m ∈ t.visibleMembers, m.declaration.IsPlain ∧ m.id = "put(String[],int)" ∧
          m.id ∈ m.declaration.declaredNames ∧
          (∃ shown, (Renderer.ofIndex c'.index).link "C#put(String[],int)" none none true
            = linkTo (some "../types/C.html#put(String[],int)") true shown) ∧
          ∃ text ls, (Press.ofIndex c'.index).typePage t = .ok text ∧
            (Press.ofIndex c'.index).HasLines text ls ∧
            ls.head? = some "<section id=\"put(String[],int)\">" := by
  obtain ⟨e, c', hrun, -, t, ht, hname, hmembers⟩ := runPass_twoVariables
  have hput : ("put(String[],int)", ["put(String[],int)"], true) ∈ t.visibleMembers.map memberRow := by
    rw [hmembers]
    decide
  obtain ⟨m, hm, hput⟩ := List.mem_map.mp hput
  obtain ⟨hid, hdeclared, hplain⟩ := Prod.mk.inj hput |>.imp_right Prod.mk.inj
  have hdeclares : m.id ∈ m.declaration.declaredNames := by
    rw [hid, hdeclared]
    exact List.mem_singleton_self _
  have htype : IsPlainName t.qualifiedName := by
    rw [hname]
    decide
  have hprimitive : t.qualifiedName ∉ primitiveTypes := by
    rw [hname]
    decide
  have hscope : ((none : Option Scope) <|> (Renderer.ofIndex c'.index).resolver.scope) = none := rfl
  obtain ⟨hlink, -, hsection⟩ := section_of_link rfl hrun (Renderer.ofIndex c'.index) rfl ht htype
    hprimitive hm (of_decide_eq_true hplain) hdeclares (.inl hscope) none true
  obtain ⟨hpage, hlines⟩ := hsection rfl (Press.ofIndex c'.index)
  obtain ⟨text, htext⟩ := hpage nofun
  obtain ⟨ls, -, hls, hhead⟩ := hlines text htext
  rw [hname, hid] at hlink
  rw [hid] at hhead
  exact ⟨e, c', hrun, t, ht, hname, htype, hprimitive, m, hm, of_decide_eq_true hplain, hid,
    hdeclares, hlink, text, ls, htext, hls, hhead⟩

/-- The link to the second variable leads to the page of the class, where no member has a section of
that name. The same happens to the method with annotated brackets, whose annotation is taken away only
from the link. -/
theorem second_variable_without_section :
    ∃ e c', runPass twoVariables .documenting twoVariablesPaths none (.initial []) = (.ok e, c') ∧
      ∃ t ∈ c'.graph.sort.connect.types, t.qualifiedName = "C" ∧
        (∃ m ∈ t.visibleMembers, "b" ∈ m.declaration.declaredNames) ∧
        ((Renderer.ofIndex c'.index).link "C#b" none none true).render
          = "<a href=\"../types/C.html#b\"><code>C.b</code></a>" ∧
        (∃ m ∈ t.visibleMembers, "get(String@A[])" ∈ m.declaration.declaredNames) ∧
        ((Renderer.ofIndex c'.index).link "C#get(String@A[])" none none true).render
          = "<a href=\"../types/C.html#get(String[])\"><code>C.get(String[])</code></a>" ∧
        ∀ m ∈ t.visibleMembers, m.id ≠ "b" ∧ m.id ≠ "get(String[])" := by
  obtain ⟨e, c', hrun, hindex, t, ht, hname, hmembers⟩ := runPass_twoVariables
  have hfield : ("a", ["a", "b"], true) ∈ t.visibleMembers.map memberRow := by
    rw [hmembers]
    decide
  have hget : ("get(String@A[])", ["get(String@A[])"], false) ∈ t.visibleMembers.map memberRow := by
    rw [hmembers]
    decide
  obtain ⟨field, hfield, hfieldRow⟩ := List.mem_map.mp hfield
  obtain ⟨get, hget, hgetRow⟩ := List.mem_map.mp hget
  have hfieldNames : field.declaration.declaredNames = ["a", "b"] :=
    congrArg (fun r => r.2.1) hfieldRow
  have hgetNames : get.declaration.declaredNames = ["get(String@A[])"] :=
    congrArg (fun r => r.2.1) hgetRow
  have hlinks : ((Renderer.ofIndex c'.index).link "C#b" none none true).render
        = "<a href=\"../types/C.html#b\"><code>C.b</code></a>" ∧
      ((Renderer.ofIndex c'.index).link "C#get(String@A[])" none none true).render
        = "<a href=\"../types/C.html#get(String[])\"><code>C.get(String[])</code></a>" := by
    rw [hindex]
    decide +kernel
  refine ⟨e, c', hrun, t, ht, hname, ⟨field, hfield, ?_⟩, hlinks.1, ⟨get, hget, ?_⟩, hlinks.2,
    fun m hm => ?_⟩
  · rw [hfieldNames]
    decide
  · rw [hgetNames]
    decide
  -- No member has one of the two fragments as its `id`.
  · have hrow : memberRow m ∈ twoVariablesRows := hmembers ▸ List.mem_map_of_mem hm
    have hnone : ∀ r ∈ twoVariablesRows, r.1 ≠ "b" ∧ r.1 ≠ "get(String[])" := by decide
    exact hnone (memberRow m) hrow

end Apidoc.Build.Collector
