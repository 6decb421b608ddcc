import Apidoc.Files.Path
import Apidoc.Text.Quoted

/-!
# `Apidoc.Files.Error`: why a file operation fails
-/

set_option autoImplicit false

namespace Apidoc.Files

/-- The reasons for which the system refuses a file operation. -/
inductive Fault where
  | notFound
  | alreadyExists
  | notDirectory
  | isDirectory
  | nameTooLong
  /-- A file stands where a directory is to be removed. -/
  | notRemovable
  /-- A path holds the character NUL. -/
  | nullCharacter
  deriving DecidableEq, Repr

namespace Fault

/-- The number and the text of the reason, if the system has one for it. -/
def codeAndText? : Fault → Option (Nat × String)
  | notFound => some (2, "No such file or directory")
  | alreadyExists => some (17, "File exists")
  | notDirectory | notRemovable => some (20, "Not a directory")
  | isDirectory => some (21, "Is a directory")
  | nameTooLong => some (36, "File name too long")
  | nullCharacter => none

end Fault

/-- A refused operation and the path it was for. -/
structure FileError where
  fault : Fault
  path : Path
  /-- A removal shows the path object, not its text. -/
  ofRemoval : Bool := false
  deriving DecidableEq, Repr

namespace FileError

/-- The path as the message shows it. -/
def shownPath (e : FileError) : String :=
  let quoted := Text.quotedString e.path.toString
  if e.ofRemoval then s!"PosixPath({quoted})" else quoted

/-- The message of the system. -/
def message (e : FileError) : String :=
  match e.fault.codeAndText? with
  | some (code, text) => s!"[Errno {code}] {text}: {e.shownPath}"
  | none => "embedded null byte"

end FileError

end Apidoc.Files
