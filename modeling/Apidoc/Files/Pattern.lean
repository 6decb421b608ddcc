import Apidoc.Files.Path

/-!
# `Apidoc.Files.Pattern`: patterns of names and paths

In a pattern of a name, `*` stands for any text, `?` for any character, and `[…]` for one character
of a set. Ranges are read from left to right; a range whose ends are in the wrong order is empty, and
a bracket that is never closed stands for itself. In a pattern of a path, the name `**` stands for
any number of directories.
-/

set_option autoImplicit false

namespace Apidoc.Files

/-- A range of characters in a set. -/
structure CharRange where
  first : Char
  last : Char
  deriving DecidableEq, Repr

/-- A part of a pattern of a name. -/
inductive NamePart where
  | literal (c : Char)
  | anyChar
  | anyText
  | set (negated : Bool) (ranges : List CharRange)
  deriving DecidableEq, Repr

/-- A pattern of a name. -/
abbrev NamePattern := List NamePart

namespace NamePattern

/-- The ranges of a set. A character on its own is a range of one. -/
def ranges : List Char → List CharRange
  | x :: '-' :: y :: rest => ⟨x, y⟩ :: ranges rest
  | x :: rest => ⟨x, x⟩ :: ranges rest
  | [] => []

/-- What stands between an opening bracket and the one that closes it, and the text after that. A
closing bracket that comes first belongs to the set. -/
def bracketed? (cs : List Char) : Option (Bool × List Char × List Char) :=
  let negated := cs.head? = some '!'
  let body := if negated then cs.drop 1 else cs
  let lead := body.take (if body.head? = some ']' then 1 else 0)
  let rest := body.drop lead.length
  let inner := rest.takeWhile (· ≠ ']')
  match rest.drop inner.length with
  | [] => none
  | _ :: after => some (negated, lead ++ inner, after)

theorem length_bracketed? {cs inner after : List Char} {negated : Bool}
    (h : bracketed? cs = some (negated, inner, after)) : after.length < cs.length := by
  unfold bracketed? at h
  dsimp only at h
  split at h
  · cases h
  · rename_i last rest heq
    have hl := congrArg List.length heq
    simp only [List.length_drop, List.length_cons] at hl
    cases h
    split at hl <;> simp at hl <;> omega

/-- Reads a pattern of a name. -/
def read : List Char → NamePattern
  | [] => []
  | '*' :: rest => .anyText :: read rest
  | '?' :: rest => .anyChar :: read rest
  | '[' :: rest =>
    match h : bracketed? rest with
    | some (negated, inner, after) =>
      have := length_bracketed? h
      .set negated (ranges inner) :: read after
    | none => .literal '[' :: read rest
  | c :: rest => .literal c :: read rest
termination_by cs => cs.length
decreasing_by all_goals (simp only [List.length_cons]; omega)

/-- Whether a part of a pattern admits a character. -/
def admits (part : NamePart) (c : Char) : Bool :=
  match part with
  | .literal d => c = d
  | .anyChar | .anyText => true
  | .set negated ranges => negated != ranges.any fun r => r.first ≤ c && c ≤ r.last

/-- Whether some end of a text, the text itself included, is accepted. -/
def anyEnd (accepts : List Char → Bool) : List Char → Bool
  | [] => accepts []
  | c :: cs => accepts (c :: cs) || anyEnd accepts cs

/-- Whether a name fits a pattern. -/
def fits : NamePattern → List Char → Bool
  | [], cs => cs.isEmpty
  | .anyText :: pattern, cs => anyEnd (fits pattern) cs
  | _ :: _, [] => false
  | part :: pattern, c :: cs => admits part c && fits pattern cs

end NamePattern

/-- One name in a pattern of a path. -/
inductive PathPart where
  /-- Any number of directories, none included. -/
  | anyDirectories
  /-- A name without any special character. -/
  | exact (name : String)
  | matching (pattern : NamePattern)
  /-- A slash at the end: only directories. -/
  | directoryOnly
  deriving Repr

namespace PathPart

/-- Two stars one after the other. -/
def hasTwoStars : List Char → Bool
  | '*' :: '*' :: _ => true
  | _ :: rest => hasTwoStars rest
  | [] => false

/-- Reads one name of a pattern. Two stars must stand alone. -/
def read? (name : String) : Option PathPart :=
  let cs := name.toList
  if name = "**" then some .anyDirectories
  else if hasTwoStars cs then none
  else if cs.any fun c => c = '*' || c = '?' || c = '[' then some (.matching (NamePattern.read cs))
  else some (.exact name)

/-- Reads a pattern of a path. -/
def readAll? (pattern : String) : Option (List PathPart) := do
  let parts ← (Path.ofString pattern).names.mapM read?
  return parts ++ if pattern.toList.getLast? = some '/' then [.directoryOnly] else []

end PathPart

end Apidoc.Files
