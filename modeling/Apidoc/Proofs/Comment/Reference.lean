import Apidoc.Comment.Renderer
import Apidoc.Proofs.Text.Blank

/-!
# `Apidoc.Proofs.Comment.Reference`: where a reference in a comment leads

A link leads to the page of its type, with its member as the fragment, if the type has a
page (`link_of_locate`). Without a label it shows the name of its type (`link_eq_linkTo`,
`defaultLabel_of_typed`). A `@see` tag is read twice: once for what it refers to, and once
when it is shown. Both read the same type and the same member (`renderSee_of_ofText?`).
-/

set_option autoImplicit false

namespace Apidoc.Comment

open Apidoc.Html (Node)
open Apidoc.Model (Index Reference Scope)
open Apidoc.Text

/-- The descriptor after the sign of a member, in its canonical form. Without a sign it is empty. -/
def Target.descriptor (fragment : Option (List Char)) : String :=
  match fragment with
  | some m => String.ofList (Java.Descriptor.normalize m)
  | none => ""

/-- A text that leads to an address, or code if there is none. -/
def linkTo (address : Option String) (asCode : Bool) (shown : String) : Node :=
  match address with
  | some href => .element "a" [("href", href)] [if asCode then Html.code shown else .text shown]
  | none => Html.code shown

/-- The name of a type, with that of a member behind it if there is one. -/
def withMember (name member : String) : String :=
  if member = "" then name else name ++ "." ++ member

/-- Different names stay different with a member behind them. -/
theorem withMember_inj {name other member : String} :
    withMember name member = withMember other member ↔ name = other := by
  unfold withMember
  split
  · rfl
  · rw [String.append_left_inj, String.append_left_inj]

namespace Renderer

/-- What comments on pages of types are rendered against if nothing but an index is known. -/
def ofIndex (index : Index) : Renderer := ⟨⟨index, [], fun _ => none, none⟩, none, "../"⟩

variable {r : Renderer} {scope : Option Scope} {found : Reference}

/-- An empty member counts as none. -/
theorem href_of_empty (found : Reference) (member root : String) :
    found.href (if member = "" then none else some member) root = found.href (some member) root := by
  by_cases h : member = ""
  · rw [if_pos h, h]
    rfl
  · rw [if_neg h]

/-- A link leads where its type leads, at its member, and shows its label or what stands for it. -/
theorem link_eq_linkTo {target : String} {type : List Char} {fragment : Option (List Char)}
    (htarget : Target.typeAndMember target.toList = (type, fragment))
    (hfound : r.locate (String.ofList type) scope = some found) (label : Option String)
    (asCode : Bool) :
    r.link target scope label asCode
      = linkTo (found.href (some (Target.descriptor fragment)) r.root) asCode
          (label.getD
            (defaultLabel (some found) (String.ofList type) (Target.descriptor fragment))) := by
  unfold link
  cases fragment with
  | none =>
    simp only [htarget, hfound, Option.bind_some]
    rfl
  | some m =>
    simp only [htarget, hfound, Option.bind_some, href_of_empty]
    rfl

/-- A link leads where its type leads, whatever it shows. -/
theorem link_of_locate {target : String} {type : List Char} {fragment : Option (List Char)}
    (htarget : Target.typeAndMember target.toList = (type, fragment))
    (hfound : r.locate (String.ofList type) scope = some found) (label : Option String)
    (asCode : Bool) :
    ∃ shown, r.link target scope label asCode
      = linkTo (found.href (some (Target.descriptor fragment)) r.root) asCode shown :=
  ⟨_, link_eq_linkTo htarget hfound label asCode⟩

/-- Without a type part, the member stands for the label. -/
theorem defaultLabel_of_untyped (found : Option Reference) (member : String) :
    defaultLabel found "" member = member := by
  simp [defaultLabel]

/-- With a type part, the name without the package stands for the label, and the member with it. -/
theorem defaultLabel_of_typed {typeName : String} (htype : typeName ≠ "")
    (hname : found.simpleName ≠ "") (member : String) :
    defaultLabel (some found) typeName member = withMember found.simpleName member := by
  by_cases hmember : member = "" <;> simp [defaultLabel, withMember, htype, hname, hmember]

end Renderer

/-! ### The two readings of a tag -/

/-- The descriptor of the member that a reference names. -/
def SeeReference.descriptor (see : SeeReference) : String := String.ofList (see.member.toList.drop 1)

/-- A tag that is a reference has the type and the member of its first word, which starts neither a
quotation nor a link. -/
theorem SeeReference.ofText?_eq_some {text : String} {see : SeeReference}
    (h : ofText? text = some see) :
    ∃ type fragment, Target.typeAndMember (Target.leading text.toList) = (type, fragment) ∧
      see.typeName = String.ofList type ∧ see.descriptor = Target.descriptor fragment ∧
      ∃ c rest, Target.leading text.toList = c :: rest ∧ c ≠ '"' ∧ c ≠ '<' := by
  unfold ofText? at h
  split at h
  · cases h
  · rename_i c rest hleading
    split at h
    · cases h
    · rename_i hmark
      rw [not_or] at hmark
      split at h
      · rename_i type htarget
        cases h
        exact ⟨type, none, by rw [hleading, htarget], rfl, rfl, c, rest, hleading, hmark⟩
      · rename_i type member htarget
        cases h
        refine ⟨type, some member, by rw [hleading, htarget], rfl, ?_, c, rest, hleading, hmark⟩
        rw [descriptor, String.toList_ofList]
        rfl

/-- The first word of a text starts with the first character of the text, if that is not blank. -/
theorem Target.scan_cons {c : Char} (h : isBlank c = false) (rest : List Char) :
    ∃ after, scan 0 (c :: rest) = c :: after := by
  unfold scan
  split
  · exact ⟨_, rfl⟩
  · split
    · exact ⟨_, rfl⟩
    · rw [if_neg (by simp [h])]
      exact ⟨_, rfl⟩

/-- A tag that is a reference is shown as a link of its type and its member. -/
theorem Renderer.renderSee_of_ofText? (r : Renderer) (scope : Option Scope) {text : String}
    {see : SeeReference} (h : SeeReference.ofText? text = some see) {found : Reference}
    (hfound : r.locate see.typeName scope = some found) :
    ∃ shown, r.renderSee text scope
      = (linkTo (found.href (some see.descriptor) r.root) true shown).render := by
  obtain ⟨type, fragment, htarget, htype, hmember, c, rest, hleading, hquote, hlink⟩ :=
    SeeReference.ofText?_eq_some h
  rw [htype] at hfound
  rw [hmember]
  -- The text that is shown was trimmed, and is trimmed once more for its first word.
  have hagain : Target.leading (trim text.toList) = c :: rest := by
    rw [Target.leading, trim_trim]
    exact hleading
  obtain ⟨after, htrim⟩ : ∃ after, trim text.toList = c :: after := by
    rw [Target.leading] at hleading
    cases htrim : trim text.toList with
    | nil =>
      rw [htrim] at hleading
      cases hleading
    | cons d after =>
      have hblank := not_blank_head?_trim text.toList d (by rw [htrim]; rfl)
      obtain ⟨more, hscan⟩ := Target.scan_cons hblank after
      rw [htrim, hscan] at hleading
      exact ⟨after, by rw [(List.cons.inj hleading).1]⟩
  rw [hleading] at htarget
  have hread : Target.typeAndMember (String.ofList (c :: rest)).toList = (type, fragment) := by
    rw [String.toList_ofList, htarget]
  obtain ⟨shown, hlinked⟩ := r.link_of_locate hread hfound
    ((Target.withLabel (trim text.toList)).2.map String.ofList) true
  refine ⟨shown, ?_⟩
  rw [← hlinked]
  have hword : (Target.withLabel (trim text.toList)).1 = c :: rest := hagain
  rw [← hword]
  unfold renderSee
  rw [htrim]
  dsimp only
  split
  · rename_i hmark
    exact absurd (List.cons.inj hmark).1 hquote
  · rename_i hmark
    exact absurd (List.cons.inj hmark).1 hlink
  · rfl

end Apidoc.Comment
