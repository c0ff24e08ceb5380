import ConfigCare.Secret.Finding
import ConfigCare.Secret.Registry
import ConfigCare.Text.Position
/-!
Scanning a text for secrets: the matches of every rule, by rule and then by place. A rule with
keywords counts only where one of them is near.
-/

namespace ConfigCare.Secret

/-- How far from a match its keywords are looked for. -/
def contextReach : Nat := 100

/-- Whether a keyword, given in lower case, occurs near a stretch of a text. -/
def hasContext (content : Text) (start finish : Nat) (keywords : List Text) : Bool :=
  let first := start - contextReach
  let window := Text.lower ((content.drop first).take (finish + contextReach - first))
  keywords.any fun k => Text.occursIn k window

/-- Whether a match of a rule is to be reported. -/
def CompiledRule.counts (r : CompiledRule) (content : Text) (s : Regex.Span) : Bool :=
  !s.text.isEmpty &&
    (r.keywords.isEmpty || hasContext content s.offset s.finish r.keywords)

/-- The finding that a match makes. -/
def CompiledRule.finding (r : CompiledRule) (content file : Text) (s : Regex.Span) : Finding :=
  let p := Text.position content s.offset
  ⟨file, p.line, p.column, r.rule.name, r.rule.pattern, s.text, mask star s.text,
    Text.lineAt content s.offset⟩

/-- The findings of one rule. -/
def CompiledRule.scan (r : CompiledRule) (content file : Text) : List Finding :=
  ((r.pattern.spans content).filter (r.counts content)).map (r.finding content file)

/-- Scans a text. -/
def scan (rules : List CompiledRule) (content file : Text) : List Finding :=
  rules.flatMap fun r => r.scan content file

end ConfigCare.Secret
