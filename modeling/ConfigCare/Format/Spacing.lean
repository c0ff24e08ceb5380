import ConfigCare.Text.Lines
/-!
White space in YAML and TOML: none at the end of a line, one blank line at most between others,
and in TOML one space on each side of the first equals sign.
-/

namespace ConfigCare.Format

/-- Whether the line before was blank, and the lines kept so far, last first. -/
def collapseStep (s : Bool × List Text) (line : Text) : Bool × List Text :=
  let blank := Text.isBlankLine line
  if blank && s.1 then s else (blank, line :: s.2)

/-- Of blank lines in a row only the first stays. -/
def collapseBlankLines (ls : List Text) : List Text := (ls.foldl collapseStep (false, [])).2.reverse

/-- A text with a line feed at its end. -/
def withBreak (s : Text) : Text := if Text.endsWithAny ['\n'] s then s else s ++ ['\n']

def normalize (fix : Text → Text) (s : Text) : Text :=
  withBreak (Text.joinWith ['\n']
    (collapseBlankLines ((Text.lines s).map fun l => fix (Text.trimEnd l))))

/-- Sets one space on each side of the first equals sign, unless the line is a comment or starts
with the sign. -/
def spacedAssignment (line : Text) : Text :=
  if !line.contains '=' || Text.startsWith ['#'] (Text.trimStart line) then line
  else
    match line.takeWhile (· ≠ '=') with
    | [] => line
    | key =>
      let value := (line.dropWhile (· ≠ '=')).drop 1
      Text.trimEnd (Text.trimEnd key ++ Text.lit " = " ++ Text.trimStart value)

def normalizeYaml (s : Text) : Text := normalize id s

def normalizeToml (s : Text) : Text := normalize spacedAssignment s

end ConfigCare.Format
