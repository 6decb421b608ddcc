import Apidoc.Failure
import Apidoc.Log
import Apidoc.Settings.Check

/-!
# `Apidoc.Settings.Logging`: what of the log is shown

Entries are shown on the console and may also be kept in a file. While they are kept in a file, the
console shows warnings and errors only, unless everything is asked for.
-/

set_option autoImplicit false

namespace Apidoc.Settings

open Apidoc.Log (Level)

/-- The settings of a log file. -/
structure FileLogging where
  isEnabled : Bool
  path : String
  /-- The least serious entries that are kept. -/
  level : Level
  /-- When a new file is begun. -/
  rotation : String
  /-- How long old files are kept. -/
  retention : String
  /-- The layout of an entry. -/
  format : String
  deriving DecidableEq, Repr

/-- The settings of the log. -/
structure Logging where
  file : FileLogging
  /-- The least serious entries that the console shows. -/
  consoleLevel : Level
  deriving DecidableEq, Repr

namespace FileLogging

/-- The settings that hold unless others are given. -/
def default : FileLogging where
  isEnabled := false
  path := "jdocsite.log"
  level := .info
  rotation := "10 MB"
  retention := "1 week"
  format :=
    "\x7btime:YYYY-MM-DD HH:mm:ss\x7d | \x7blevel: <8\x7d | " ++
      "\x7bname\x7d:\x7bfunction\x7d:\x7bline\x7d - \x7bmessage\x7d"

/-- The name of this group in reports. -/
def groupName : String := "FileLoggingConfig"

end FileLogging

/-- A level by its name, in any case. `what` says what the level is for. -/
def levelOfText (what s : String) : Except Fault Level :=
  match Level.ofText? (s.map Text.asciiCapital) with
  | some level => .ok level
  | none =>
    let names := ", ".intercalate ((Level.all.map Level.text).mergeSort fun a b => a ≤ b)
    .error (.refused s!"Invalid {what} '{s}'. Must be one of: {names}")

/-- The path of a log file must not be blank. -/
def filledPath (s : String) : Except Fault String :=
  if Text.allBlank s.toList then .error (.refused "Log file path cannot be empty") else .ok s

namespace FileLogging

/-- Reads the settings of a log file. -/
def check : Check FileLogging
  | location, .object values =>
    FileLogging.mk
      <$> Check.field location values "enabled" default.isEnabled .switch
      <*> Check.field location values "path" default.path (.refine .text filledPath)
      <*> Check.field location values "level" default.level
        (.refine .text (levelOfText "log level"))
      <*> Check.field location values "rotation" default.rotation .text
      <*> Check.field location values "retention" default.retention .text
      <*> Check.field location values "format" default.format .text
  | location, value => .faulty [.ofValue location value (.notGroup groupName)]

end FileLogging

namespace Logging

/-- The settings that hold unless others are given. -/
def default : Logging := ⟨.default, .info⟩

/-- The name of this group in reports. -/
def groupName : String := "LoggingConfig"

/-- Reads the settings from values. Values for other names do not matter. -/
def ofValues (values : Values) : Checked Logging :=
  Logging.mk
    <$> Check.field [] values "file" default.file FileLogging.check
    <*> Check.field [] values "console_level" default.consoleLevel
      (.refine .text (levelOfText "console log level"))

/-- The least serious entries that the console shows in the end. Without settings these are the
informative ones. -/
def consoleThreshold (isVerbose : Bool) (settings : Option Logging) : Level :=
  if isVerbose then .debug
  else
    match settings with
    | none => default.consoleLevel
    | some l => if l.file.isEnabled then .warning else l.consoleLevel

/-- The file that entries are kept in, and the least serious of these entries. -/
def file? (settings : Option Logging) : Option (String × Level) :=
  match settings with
  | none => none
  | some l => if l.file.isEnabled then some (l.file.path, l.file.level) else none

end Logging

end Apidoc.Settings
