import ConfigCare.Text.Basic
/-!
The settings: how many files are handled at once, and one section each for the search for secrets,
for formatting and for logging. Every field has a value to take when nothing sets it.
-/

namespace ConfigCare

namespace Settings

/-- Where the rules are read from and the report is written to, as seen from the base folder. -/
structure Scanner where
  patternsFile : Text
  reportFile : Text
deriving DecidableEq

structure Formatter where
  extensions : List Text
  ignoreGlobs : List Text
  /-- Whether JSON with comments is indented by its real nesting. -/
  strict : Bool
deriving DecidableEq

structure Logging where
  level : Text
  format : Text
  file : Option Text
deriving DecidableEq

def Scanner.default : Scanner := ⟨Text.lit ".secrets-patterns.json", Text.lit "secrets-report.json"⟩

def Formatter.default : Formatter where
  extensions := [Text.lit ".json", Text.lit ".yaml", Text.lit ".yml", Text.lit ".toml"]
  ignoreGlobs :=
    [Text.lit "**/node_modules/**", Text.lit "**/.git/**", Text.lit "**/dist/**",
      Text.lit "**/package-lock.json", Text.lit "**/bun.lock", Text.lit "**/bun.lockb"]
  strict := false

def Logging.default : Logging := ⟨Text.lit "WARNING", Text.lit "console", none⟩

end Settings

structure Settings where
  concurrency : Int
  scanner : Settings.Scanner
  formatter : Settings.Formatter
  logging : Settings.Logging
deriving DecidableEq

def Settings.default : Settings := ⟨1, .default, .default, .default⟩

end ConfigCare
