import Apidoc.Files.Error
import Apidoc.Json.Reader
import Apidoc.Settings.Problem

/-!
# `Apidoc.Failure`: why a run ends without a result

Lookups that miss are no failures. They have empty results. What stands here aborts a run: files
that cannot be read or written, settings that make no sense, and calls in the wrong order.
-/

set_option autoImplicit false

namespace Apidoc

open Apidoc.Files (Path FileError)

/-- What is wrong with the settings of a run. -/
inductive SettingsFault where
  | noSource
  | missingSource (path : Path)
  | missingSample (path : Path)
  | unreadableFile (path : Path) (reason : String)
  | notAnObject (path : Path)
  deriving DecidableEq, Repr

namespace SettingsFault

/-- The message for the user. -/
def message : SettingsFault → String
  | noSource => "At least one source directory is required"
  | missingSource path => s!"Source directory not found: {path}"
  | missingSample path => s!"Sample directory not found: {path}"
  | unreadableFile path reason => s!"Cannot load config file {path}: {reason}"
  | notAnObject path => s!"Config file {path} must contain a JSON object"

end SettingsFault

/-- Why a run ends without a result. -/
inductive Failure where
  /-- A source file cannot be read. -/
  | unreadable (path : Path) (cause : Option String)
  | settings (fault : SettingsFault)
  /-- The values given for a group of settings cannot be used. -/
  | invalid (group : String) (problems : List Settings.Problem)
  /-- A phase of a build fails. -/
  | build (phase reason : String)
  /-- An external site gives a bad answer. -/
  | fetch (url reason : String)
  /-- Reading a language needs a part that is not installed. -/
  | setup (language dependency command reason : String)
  /-- The system refuses a file operation. -/
  | file (error : FileError)
  /-- A file is not the text it should be. -/
  | encoding
  /-- A path without a last name cannot get a suffix. -/
  | emptyName (path : Path)
  /-- A pattern holds two stars inside a name. -/
  | pattern
  /-- The authority of an address has a bracket without a partner. -/
  | address
  /-- The authority of an address hides a delimiter. -/
  | disguisedAddress (authority : String)
  /-- The path of an asset leads out of the assets. -/
  | assetPath (path : String)
  /-- A page has a marked section with a keyword that is not known. -/
  | markup
  /-- An integer in a settings file is longer than any that is read. -/
  | integerTooLong (digits : Nat)
  /-- The text for the path of a log file cannot be filled in. -/
  | logName (text reason : String)
  deriving DecidableEq, Repr

namespace Failure

/-- The message for the user. -/
def message : Failure → String
  | unreadable path none => s!"Cannot read source file {path}"
  | unreadable path (some cause) => s!"Cannot read source file {path}: {cause}"
  | settings fault => fault.message
  | invalid group problems => Settings.Problem.report group problems
  | build phase reason => s!"Build failed during {phase}: {reason}"
  | fetch url reason => s!"Failed to fetch {url}: {reason}"
  | setup language dependency command reason =>
    Text.onString Text.trim
      (language ++ " parser requires " ++ dependency ++ " (install with: " ++ command ++ "). " ++
        reason)
  | file error => error.message
  | encoding => "invalid UTF-8"
  | emptyName path => s!"PosixPath({Text.quotedString path.toString}) has an empty name"
  | pattern => "Invalid pattern: '**' can only be an entire path component"
  | address => "Invalid IPv6 URL"
  | disguisedAddress authority =>
    s!"netloc {authority} contains invalid characters under NFKC normalization"
  | assetPath path => s!"Invalid template path: {path}"
  | markup => "unknown status keyword in marked section"
  | integerTooLong digits => (Json.Problem.integerTooLong digits).text
  | logName _ reason => reason

/-- Whether the failure is one that a build passes on as it is. Any other failure inside a build
becomes a failure of the phase. -/
def isOwn : Failure → Bool
  | unreadable .. | settings .. | build .. | fetch .. | setup .. => true
  | _ => false

/-- Why a source file cannot be read. -/
def ofRead (e : FileError) : Failure :=
  if e.fault = .nullCharacter then .file e else .unreadable e.path (some e.message)

end Failure

end Apidoc
