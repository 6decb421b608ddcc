import Apidoc.Model.Unit
import Apidoc.Proofs.Java.Descriptor

/-!
# `Apidoc.Proofs.Model.Signature`: descriptors and the methods that they name

A comment names a method by a descriptor, and the source that declares the method writes the same
types in its own way. The descriptor is split and each part is erased. The declaration has its types
one by one, and the brackets or the ellipsis of a parameter apart from the rest of its type.

Both lead to the same text (`normalized_string`). So whatever a comment and a source do with
blanks, the comment finds the method. It finds no other one, since descriptors with another name or
with other erased types have another canonical form.
-/

set_option autoImplicit false

namespace Apidoc

open Apidoc.Java (ParameterSyntax MethodSyntax WrittenType WrittenDescriptor)
open Apidoc.Java.TypeName (erase erased)
open Apidoc.Text

namespace Model.Declaration

/-- A signature is the name and the parameter types between parentheses. -/
theorem toList_signature {d : Declaration} (h : d.kind = .method ∨ d.kind = .constructor) :
    d.signature.toList
      = d.name.toList ++ '(' :: (join [','] (d.parameters.map (·.type.toList)) ++ [')']) := by
  have hsignature : d.signature
      = d.name ++ "(" ++ ",".intercalate (d.parameters.map (·.type)) ++ ")" := by
    unfold signature
    rcases h with hkind | hkind <;> rw [hkind]
  rw [hsignature]
  simp only [String.toList_append, String.toList_intercalate, Text.join_eq_intercalate,
    List.map_map, List.append_assoc]
  rfl

end Model.Declaration

namespace Java.ParameterSyntax

/-- What stands behind the type of the parameter and belongs to it. -/
def suffix (p : ParameterSyntax) : List Char :=
  if p.isVariadic then ['.', '.', '.'] else p.dimensions.toList

/-- The parameter is declared with the type. Both are written in the same way but for blanks. -/
structure IsOfType (p : ParameterSyntax) (t : WrittenType) : Prop where
  type : ∃ s : WrittenType, s.IsPlain ∧ p.type.toList = s.text
  angle : ∀ c ∈ p.suffix, c ≠ '<' ∧ c ≠ '>'
  same : squeeze (p.type.toList ++ p.suffix) = squeeze t.text

variable {p : ParameterSyntax} {t : WrittenType}

/-- No annotation is declared with the type either. -/
theorem IsOfType.no_sign (h : p.IsOfType t) (ht : t.IsPlain) : '@' ∉ p.suffix := by
  intro hmem
  have hsqueeze : '@' ∈ squeeze (p.type.toList ++ p.suffix) :=
    List.mem_filter.mpr ⟨List.mem_append_right _ hmem, by decide⟩
  rw [h.same] at hsqueeze
  exact ht.not_mem (by decide) (by decide) (List.mem_filter.mp hsqueeze).1

/-- The erased type of a parameter has what stands behind the type at its end. -/
theorem IsOfType.toList_parameter (h : p.IsOfType t) (ht : t.IsPlain) :
    (Model.CompilationUnit.parameter p).type.toList = erase p.type.toList ++ squeeze p.suffix := by
  have hangle := h.angle
  have hsign := h.no_sign ht
  rw [Model.CompilationUnit.parameter]
  rw [suffix] at hangle hsign ⊢
  split
  · rw [String.toList_append, erased, onString, String.toList_ofList]
    rfl
  · rename_i hvariadic
    rw [if_neg hvariadic] at hangle hsign
    have hdimensions : erase p.dimensions.toList = squeeze p.dimensions.toList := by
      rw [Java.TypeName.erase_of_no_sign hsign]
      exact Java.TypeName.outsideAngles_eq_self fun c hc => hangle c (List.mem_filter.mp hc).1
    rw [String.toList_append, erased, erased, onString, onString, String.toList_ofList,
      String.toList_ofList, hdimensions]

/-- The type of a declared parameter is the name of the type that it is declared with. -/
theorem IsOfType.toList_type (h : p.IsOfType t) (ht : t.IsPlain) :
    (Model.CompilationUnit.parameter p).type.toList = t.name := by
  -- The two are compared as one text, since brackets may stand behind the type or behind the name.
  obtain ⟨s, hs, hstext⟩ := h.type
  have hsign := h.no_sign ht
  have hnone : '@' ∉ s.text ++ p.suffix := by
    rw [List.mem_append, not_or]
    exact ⟨hs.not_mem (by decide) (by decide), hsign⟩
  have hsame := h.same
  rw [hstext] at hsame
  calc (Model.CompilationUnit.parameter p).type.toList
      = erase s.text ++ squeeze p.suffix := by rw [h.toList_parameter ht, hstext]
    _ = erase (s.text ++ p.suffix) := by rw [hs.erase_append h.angle hsign, hs.erase_eq_name]
    _ = erase t.text := by
      rw [Java.TypeName.erase_of_no_sign hnone, hsame,
        Java.TypeName.erase_of_no_sign (ht.not_mem (by decide) (by decide))]
    _ = t.name := ht.erase_eq_name

/-- Companion for a list of parameters. -/
theorem map_type {ps : List ParameterSyntax} {ts : List WrittenType}
    (h : List.Forall₂ IsOfType ps ts) (hts : ∀ t ∈ ts, t.IsPlain) :
    ps.map (fun p => (Model.CompilationUnit.parameter p).type.toList) = ts.map (·.name) := by
  induction h with
  | nil => rfl
  | cons hp _ ih =>
    obtain ⟨ht, hrest⟩ := List.forall_mem_cons.mp hts
    rw [List.map_cons, List.map_cons, hp.toList_type ht, ih hrest]

end Java.ParameterSyntax

namespace Java.WrittenDescriptor

variable {d e : WrittenDescriptor}

theorem normalized_string_eq (h : d.IsWritten) :
    Descriptor.normalized d.string = String.ofList d.key := by
  rw [Descriptor.normalized, onString, string, String.toList_ofList, h.normalize_text]

/-- A method that is declared with the name and the types of a descriptor has its key for a
signature. -/
theorem signature_methodDeclaration (h : d.IsWritten) (owner : Model.Declaration)
    (doc : Option Model.DocBlock) {head : MethodSyntax} (hname : head.name = d.name)
    (htypes : List.Forall₂ ParameterSyntax.IsOfType head.parameters d.types) :
    (Model.CompilationUnit.methodDeclaration owner doc head).signature = String.ofList d.key := by
  have hparameters := ParameterSyntax.map_type htypes fun t ht => (h.types t ht).toIsPlain
  rw [← String.toList_inj, String.toList_ofList, Model.Declaration.toList_signature (.inl rfl), key,
    ← hname, ← hparameters]
  show _ ++ '(' :: (join [','] ((head.parameters.map _).map _) ++ [')']) = _
  rw [List.map_map]
  rfl

example : (Model.CompilationUnit.read (Files.Path.ofString "A.java") (encode
      "class A \x7b void put(Map < String, int[] > m, final Object ... rest); \x7d")).flatten.map
      (·.declaration.signature) = ["A", "put(Map,Object...)"] := by decide +kernel

/-- The canonical form of a descriptor is the signature of every method that is declared with its
name and its types, however both are written. It is its own canonical form, and another descriptor
has the same one exactly if it has the same name and the same erased types. -/
theorem normalized_string (h : d.IsWritten) :
    (∀ (owner : Model.Declaration) (doc : Option Model.DocBlock) (head : MethodSyntax),
      head.name = d.name → List.Forall₂ ParameterSyntax.IsOfType head.parameters d.types →
      Descriptor.normalized d.string =
        (Model.CompilationUnit.methodDeclaration owner doc head).signature) ∧
    Descriptor.normalized (Descriptor.normalized d.string) = Descriptor.normalized d.string ∧
    ∀ e : WrittenDescriptor, e.IsWritten →
      (Descriptor.normalized d.string = Descriptor.normalized e.string ↔
        d.name = e.name ∧ d.types.map (erase ·.text) = e.types.map (erase ·.text)) := by
  have herase : ∀ {f : WrittenDescriptor}, f.IsWritten →
      f.types.map (erase ·.text) = f.types.map WrittenType.name := fun hf =>
    List.map_congr_left fun t ht => (hf.types t ht).erase_eq_name
  refine ⟨?_, ?_, ?_⟩
  · intro owner doc head hname htypes
    rw [normalized_string_eq h, signature_methodDeclaration h owner doc hname htypes]
  · rw [normalized_string_eq h, Descriptor.normalized, onString, String.toList_ofList,
      h.normalize_key]
  · intro e he
    rw [normalized_string_eq h, normalized_string_eq he, String.ofList_inj, h.key_eq_key_iff he,
      herase h, herase he]

/-- A descriptor with blanks in all places. -/
def spacedPut : WrittenDescriptor where
  lead := [' ']
  signs := 2
  gap := [' ']
  name := "put"
  behind := [' ']
  types := [
    .chars ("Map ".toList)
      (.arguments (.chars ("String , int []".toList) .done) (.chars [' '] .done)),
    .chars (" Object ...".toList) .done]
  inner := [' ']
  trail := ['\n']

/-- A method with a map and any number of further arguments. -/
def putMethod : MethodSyntax where
  span := ⟨10, 50⟩
  modifiers := ⟨[], []⟩
  name := "put"
  returnType := "void"
  typeParameters := ""
  parameters := [⟨"m", "Map<String,int[]>", "", false⟩, ⟨"rest", "Object", "", true⟩]
  throws := []
  hasBody := true
  isElement := false

theorem normalized_string_spacedPut :
    spacedPut.text = " ## put (Map <String , int []> , Object ... )\n".toList ∧
      spacedPut.IsWritten ∧
      List.Forall₂ ParameterSyntax.IsOfType putMethod.parameters spacedPut.types ∧
      (∀ owner doc, Descriptor.normalized spacedPut.string =
        (Model.CompilationUnit.methodDeclaration owner doc putMethod).signature) ∧
      Descriptor.normalized spacedPut.string = "put(Map,Object...)" ∧
      Descriptor.normalized { spacedPut with types := [] }.string ≠
        Descriptor.normalized spacedPut.string := by
  have hwritten : spacedPut.IsWritten := by decide
  have hempty : { spacedPut with types := [] }.IsWritten := by decide
  have hmap : ParameterSyntax.IsOfType ⟨"m", "Map<String,int[]>", "", false⟩
      (.chars ("Map ".toList)
        (.arguments (.chars ("String , int []".toList) .done) (.chars [' '] .done))) :=
    { type := ⟨.chars ("Map".toList) (.arguments (.chars ("String,int[]".toList) .done) .done),
        by decide, by decide⟩
      angle := nofun
      same := by decide }
  have hrest : ParameterSyntax.IsOfType ⟨"rest", "Object", "", true⟩
      (.chars (" Object ...".toList) .done) :=
    { type := ⟨.chars ("Object".toList) .done, by decide, by decide⟩
      angle := by simp [ParameterSyntax.suffix]
      same := by decide }
  have htypes : List.Forall₂ ParameterSyntax.IsOfType putMethod.parameters spacedPut.types :=
    .cons hmap (.cons hrest .nil)
  obtain ⟨hsignature, -, hother⟩ := normalized_string hwritten
  refine ⟨by decide, hwritten, htypes,
    fun owner doc => hsignature owner doc putMethod rfl htypes, by decide +kernel, ?_⟩
  intro hsame
  have htypes := ((hother _ hempty).mp hsame.symm).2
  cases htypes

end Java.WrittenDescriptor

end Apidoc
