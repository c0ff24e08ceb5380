import ConfigCare.Text.Basic
/-!
Masking a secret so that it can be shown. Short secrets are hidden altogether; of longer ones the
first and last four characters stay, and the number of marks between them is capped.
-/

namespace ConfigCare.Secret

/-- The characters that stay at each end. -/
def visibleCount : Nat := 4

/-- The most marks that are written. -/
def markLimit : Nat := 16

/-- Masks a secret with a mark. -/
def mask (mark secret : Text) : Text :=
  let n := secret.length
  if n ≤ 2 * visibleCount then Text.repeated mark n
  else
    secret.take visibleCount ++ Text.repeated mark (min (n - 2 * visibleCount) markLimit) ++
      secret.drop (n - visibleCount)

/-- The mark that is used if no other is asked for. -/
def star : Text := ['*']

/-- Replaces a secret wherever it occurs in a text, by its masked form if not by another. -/
def redact (text secret : Text) (replacement : Option Text) : Text :=
  Text.replace secret (replacement.getD (mask star secret)) text

end ConfigCare.Secret
