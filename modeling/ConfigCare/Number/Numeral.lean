import ConfigCare.Text.Blank
import ConfigCare.Text.Letter
/-!
Whole numbers as people write them: a sign, digits of any script, single underscores between
digits, and white space around.
-/

namespace ConfigCare.Numeral

/-- The value of digits with single underscores between them; `value` is that of the digits before,
and `expected` tells that a digit has to come next. -/
def digits? (expected : Bool) (value : Nat) : Text → Option Nat
  | [] => if expected then none else some value
  | c :: cs =>
    if Text.isDecimal c then digits? false (value * 10 + Text.decimalValue c) cs
    else if c = '_' && !expected then digits? true value cs
    else none

/-- The number that a text denotes. -/
def int? (s : Text) : Option Int :=
  match Text.trim s with
  | '-' :: cs => (digits? true 0 cs).map fun n => -(n : Int)
  | '+' :: cs => (digits? true 0 cs).map fun n => (n : Int)
  | cs => (digits? true 0 cs).map fun n => (n : Int)

end ConfigCare.Numeral
