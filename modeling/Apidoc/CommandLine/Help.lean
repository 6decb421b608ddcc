/-!
# `Apidoc.CommandLine.Help`: what the program says about itself
-/

set_option autoImplicit false

namespace Apidoc.CommandLine

/-- The name of the program. -/
def programName : String := "jdocsite"

/-- The command that builds a site. -/
def buildName : String := "build"

/-- The program and its version. -/
def versionText : String := "jdocsite 0.1.0\n"

/-- Lines, each with a line feed at its end. -/
def textOf (lines : List String) : String := String.join (lines.map (· ++ "\n"))

/-- The help of the program. -/
def programHelp : String :=
  textOf [
    "usage: jdocsite [-h] [--version] \x7bbuild\x7d ...",
    "",
    "Static documentation sites from Java doc comments",
    "",
    "positional arguments:",
    "  \x7bbuild\x7d     Available commands",
    "    build     Generate a static API documentation site from Java sources",
    "",
    "options:",
    "  -h, --help  show this help message and exit",
    "  --version   show program's version number and exit"]

/-- The help of the command that builds a site. -/
def buildHelp : String :=
  textOf [
    "usage: jdocsite build [-h] [--out-dir OUT_DIR] [--sample SAMPLE]",
    "                      [--external-doc URL] [--use-jdk-doc] [--product PRODUCT]",
    "                      [--project PROJECT] [--product-version PRODUCT_VERSION]",
    "                      [--repository REPOSITORY]",
    "                      [--fetch-timeout FETCH_TIMEOUT] [--verbose]",
    "                      [--config CONFIG] [--log-file LOG_FILE]",
    "                      [--log-level \x7bDEBUG,INFO,WARNING,ERROR,CRITICAL\x7d]",
    "                      [SOURCE ...]",
    "",
    "Extract doc comments and declarations from Java source directories, resolve",
    "cross-references against the sources and external API documentation, and write",
    "a static site.",
    "",
    "positional arguments:",
    "  SOURCE                Source directories to document",
    "",
    "options:",
    "  -h, --help            show this help message and exit",
    "  --out-dir OUT_DIR     Output directory for the generated site",
    "  --sample SAMPLE       Directory of sample sources referenced from doc",
    "                        comments",
    "  --external-doc URL    Base URL of external API documentation (must end with",
    "                        /api/). Can be provided multiple times.",
    "  --use-jdk-doc         Link JDK types to the official API documentation",
    "  --product PRODUCT     Product name",
    "  --project PROJECT     Project name",
    "  --product-version PRODUCT_VERSION",
    "                        Product version",
    "  --repository REPOSITORY",
    "                        Repository URL used to build 'edit this page' links",
    "  --fetch-timeout FETCH_TIMEOUT",
    "                        Seconds to wait for external documentation fetches",
    "                        (default: 60)",
    "  --verbose, -v         Enable verbose logging",
    "  --config CONFIG       Configuration file path (JSON)",
    "  --log-file LOG_FILE   Enable file logging to specified path",
    "  --log-level \x7bDEBUG,INFO,WARNING,ERROR,CRITICAL\x7d",
    "                        Set file logging level (default: INFO)"]

end Apidoc.CommandLine
