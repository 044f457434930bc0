import Surface.Text.Basic

/-! # Help

What the program says about its arguments.
-/

namespace Surface.CommandLine

def usage : Text := "Usage: apidiff-cli [OPTIONS] <TEMP_FOLDER> <OLD_PATH> <NEW_PATH>"

def helpLines : List Text :=
  ["apidiff - Markdown report of public API changes between two snapshots",
    "",
    usage,
    "",
    "Arguments:",
    "  <TEMP_FOLDER>  Shared parent directory of both snapshots (not read)",
    "  <OLD_PATH>     Snapshot directory of the previous API",
    "  <NEW_PATH>     Snapshot directory of the current API",
    "",
    "Options:",
    "      --config <CONFIG>              TOML file with dialect, on_duplicate and format defaults",
    "      --dialect <DIALECT>            Listing dialect (overrides the config file) " ++
      "[possible values: extended, classic]",
    "      --on-duplicate <ON_DUPLICATE>  What to do when a snapshot repeats a symbol " ++
      "(overrides the config file) [possible values: overwrite, fail]",
    "      --format <FORMAT>              Report format (overrides the config file) " ++
      "[possible values: markdown, json]",
    "  -o, --output <OUTPUT>              Output file path (default: stdout)",
    "      --log <LOG>                    Log profile; logs go to stderr [default: quiet] " ++
      "[possible values: quiet, dev, json, off]",
    "  -h, --help                         Print help"]

def help : Text := helpLines.flatMap fun line => line ++ ['\n']

end Surface.CommandLine
