import Apidoc.Failure
import Apidoc.Files.Tree
import Apidoc.Log
import Apidoc.Settings.Check

/-!
# `Apidoc.Settings.Build`: the settings of a build

Where the sources are, what site is written from them, and how other sites are asked for their names.
-/

set_option autoImplicit false

namespace Apidoc.Settings

open Apidoc.Files (Path Tree)

/-- The settings of one build. -/
structure Build where
  sources : List Path
  sample : Option Path
  /-- Kept for the user, but not used. -/
  classpath : List Path
  /-- The end of the names of sample files. -/
  sampleSuffix : String
  output : Option Path
  product : String
  project : String
  version : String
  repository : Option String
  externalDocs : List String
  useJdkDoc : Bool
  fetchRetryAttempts : Int
  fetchRetryDelay : Float
  /-- The longest wait for all other sites, in seconds. -/
  fetchTimeout : Option Float
  httpTimeout : Float

namespace Build

/-- The settings that hold unless others are given. -/
def default : Build where
  sources := []
  sample := none
  classpath := []
  sampleSuffix := "Test.java"
  output := none
  product := ""
  project := ""
  version := ""
  repository := none
  externalDocs := []
  useJdkDoc := false
  fetchRetryAttempts := 20
  fetchRetryDelay := 0.2
  fetchTimeout := some 60.0
  httpTimeout := 10.0

/-! ### Reading -/

/-- The name of this group in reports. -/
def groupName : String := "BuildConfig"

/-- Whether an address is that of a documentation site: it begins with `http` and ends with
`/api/`. -/
def isSite (address : String) : Bool :=
  "http".toList.isPrefixOf address.toList && "/api/".toList.isSuffixOf address.toList

/-- The addresses among the given ones that are those of sites, each once. -/
def sitesAmong (addresses : List String) : List String := (addresses.filter isSite).eraseDups

/-- Reads the settings from values. Values for other names do not matter. -/
def ofValues (values : Values) : Checked Build :=
  Build.mk
    <$> Check.field [] values "sources" default.sources (.list .path)
    <*> Check.field [] values "sample" default.sample (.optional .path)
    <*> Check.field [] values "classpath" default.classpath (.list .path)
    <*> Check.field [] values "sample_suffix" default.sampleSuffix .text
    <*> Check.field [] values "output" default.output (.optional .path)
    <*> Check.field [] values "product" default.product .text
    <*> Check.field [] values "project" default.project .text
    <*> Check.field [] values "version" default.version .text
    <*> Check.field [] values "repository" default.repository (.optional .text)
    <*> sitesAmong <$> Check.field [] values "external_docs" default.externalDocs (.list .text)
    <*> Check.field [] values "use_jdk_doc" default.useJdkDoc .switch
    <*> Check.field [] values "fetch_retry_attempts" default.fetchRetryAttempts
      (.refine .integer (Check.atLeast 1))
    <*> Check.field [] values "fetch_retry_delay" default.fetchRetryDelay
      (.refine .number (Check.numberAtLeast 0))
    <*> Check.field [] values "fetch_timeout" default.fetchTimeout
      (.optional (.refine .number (Check.numberAbove 0)))
    <*> Check.field [] values "http_timeout" default.httpTimeout
      (.refine .number (Check.numberAbove 0))

/-- A warning for each address among the values that is not that of a site. -/
def warnings (values : Values) : List Log.Entry :=
  match Check.field [] values "external_docs" [] (.list .text) with
  | .ok addresses => (addresses.filter (!isSite ·)).map fun address =>
    .warning s!"Ignoring external documentation URL: {Text.quotedString address}"
  | .faulty _ => []

/-! ### Use -/

/-- The site of the JDK. -/
def jdkAddress : String := "https://docs.oracle.com/en/java/javase/16/docs/api/"

/-- The sites to ask, each once and that of the JDK first. -/
def sites (b : Build) : List String :=
  ((if b.useJdkDoc then [jdkAddress] else []) ++ b.externalDocs).eraseDups

/-- A path must lead to a directory, or else `fault` is reported. -/
def requireDirectory (files : Tree) (fault : Path → SettingsFault) (p : Path) : Except Failure Unit := do
  if ← (files.isDirectory p).mapError Failure.file then return
  else throw (.settings (fault p))

/-- Checks that there are sources, and that all directories exist. -/
def checkPaths (files : Tree) (b : Build) : Except Failure Unit := do
  if b.sources.isEmpty then throw (.settings .noSource)
  b.sources.forM (requireDirectory files .missingSource)
  b.sample.toList.forM (requireDirectory files .missingSample)

end Build

end Apidoc.Settings
