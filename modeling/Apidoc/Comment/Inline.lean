import Apidoc.Text.Blank

/-!
# `Apidoc.Comment.Inline`: inline tags in running text

Running text is a list of characters and of tags between braces. A tag that is never closed is no
tag, and neither is anything after it.
-/

set_option autoImplicit false

namespace Apidoc.Comment

/-- A part of running text. -/
inductive Inline where
  | char (c : Char)
  /-- What stands between `{@` and the brace that closes it. -/
  | tag (body : List Char)
  deriving DecidableEq, Repr

namespace Inline

/-- The text up to the brace that closes an open one, and the text after it. `depth` more braces are
open. -/
def closeBrace (depth : Nat) : List Char → Option (List Char × List Char)
  | [] => none
  | c :: rest =>
    if c = '\x7b' then (closeBrace (depth + 1) rest).map fun (body, after) => (c :: body, after)
    else if c = '\x7d' then
      match depth with
      | 0 => some ([], rest)
      | n + 1 => (closeBrace n rest).map fun (body, after) => (c :: body, after)
    else (closeBrace depth rest).map fun (body, after) => (c :: body, after)

theorem length_closeBrace {depth : Nat} {cs body after : List Char}
    (h : closeBrace depth cs = some (body, after)) : after.length < cs.length := by
  induction cs generalizing depth body with
  | nil => simp [closeBrace] at h
  | cons c rest ih =>
    unfold closeBrace at h
    split at h
    · obtain ⟨⟨b, a⟩, hb, he⟩ := Option.map_eq_some_iff.1 h
      cases he
      exact Nat.lt_succ_of_lt (ih hb)
    · split at h
      · split at h
        · cases h
          simp
        · obtain ⟨⟨b, a⟩, hb, he⟩ := Option.map_eq_some_iff.1 h
          cases he
          exact Nat.lt_succ_of_lt (ih hb)
      · obtain ⟨⟨b, a⟩, hb, he⟩ := Option.map_eq_some_iff.1 h
        cases he
        exact Nat.lt_succ_of_lt (ih hb)

/-- The parts of running text. -/
def parts : List Char → List Inline
  | [] => []
  | '\x7b' :: '@' :: rest =>
    match h : closeBrace 0 rest with
    | some (body, after) =>
      have := length_closeBrace h
      .tag body :: parts after
    | none => ('\x7b' :: '@' :: rest).map .char
  | c :: rest => .char c :: parts rest
termination_by cs => cs.length
decreasing_by
  · simp only [List.length_cons]; omega
  · simp

/-- The name of a tag and the text after it. Only a plain blank separates them. -/
def nameAndText (body : List Char) : List Char × List Char :=
  let (name, rest) := Text.cutAt ' ' body
  (Text.trim name, Text.trim (rest.getD []))

end Inline

end Apidoc.Comment
