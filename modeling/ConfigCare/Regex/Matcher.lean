import ConfigCare.Regex.Syntax
/-!
Matching by backtracking. A node is run with what has to follow it, and the first way through that
succeeds is the match. The rest of the text bounds every repetition, because after the iterations
that are required one that takes nothing ends it.
-/

namespace ConfigCare.Regex

/-- A place in a text: the text before it in reverse, and the text after it. -/
structure Cursor where
  offset : Nat
  before : Text
  after : Text

/-- The texts of the groups that have matched, the latest first. -/
abbrev Captures := List (Nat × Text)

abbrev Outcome := Option (Cursor × Captures)

/-- What is to match from a place on. -/
abbrev Matcher := Cursor → Captures → Outcome

namespace Cursor

def start (s : Text) : Cursor := ⟨0, [], s⟩

/-- The place behind the next character. -/
def forward? (c : Cursor) : Option Cursor :=
  match c.after with
  | [] => none
  | x :: xs => some ⟨c.offset + 1, x :: c.before, xs⟩

/-- The place `n` characters earlier. -/
def back? : Nat → Cursor → Option Cursor
  | 0, c => some c
  | n + 1, c =>
    match c.before with
    | [] => none
    | x :: xs => back? n ⟨c.offset - 1, xs, x :: c.after⟩

/-- The text up to a later place. -/
def textTo (c d : Cursor) : Text := c.after.take (d.offset - c.offset)

end Cursor

/-- Whether a character beside a place belongs to a word. -/
def besideWord (ascii : Bool) (s : Text) : Bool :=
  match s with
  | [] => false
  | c :: _ => CharClass.word.has ascii c

/-- Whether an anchor holds at a place. In an empty text there is neither a word boundary nor the
lack of one. -/
def Anchor.holds (m : Mode) (c : Cursor) : Anchor → Bool
  | .lineStart => c.before.isEmpty || (m.multiline && c.before.head? = some '\n')
  | .lineEnd =>
    c.after.isEmpty || c.after = ['\n'] || (m.multiline && c.after.head? = some '\n')
  | .textStart => c.before.isEmpty
  | .textEnd => c.after.isEmpty
  | .boundary =>
    !(c.before.isEmpty && c.after.isEmpty) &&
      besideWord m.ascii c.before != besideWord m.ascii c.after
  | .noBoundary =>
    !(c.before.isEmpty && c.after.isEmpty) &&
      besideWord m.ascii c.before == besideWord m.ascii c.after

/-- Passes over one character if it satisfies a test. -/
def step (test : Char → Bool) (k : Matcher) : Matcher := fun c caps =>
  match c.after with
  | [] => none
  | x :: xs => if test x then k ⟨c.offset + 1, x :: c.before, xs⟩ caps else none

/-- Passes over a text. -/
def follow (m : Mode) : Text → Cursor → Option Cursor
  | [], c => some c
  | x :: xs, c =>
    match c.after with
    | [] => none
    | y :: ys =>
      if m.folded x = m.folded y then follow m xs ⟨c.offset + 1, y :: c.before, ys⟩ else none

def below (n : Nat) : Option Nat → Bool
  | none => true
  | some most => n < most

/-- The places behind a row of characters that satisfy a test, at most as many as allowed, the
farthest first. `n` counts the characters passed, and `done` holds the places so far. -/
def run (test : Char → Bool) (most : Option Nat) (n offset : Nat) (before : Text)
    (done : List Cursor) : Text → List Cursor
  | [] => done
  | x :: xs =>
    if below n most && test x then
      run test most (n + 1) (offset + 1) (x :: before) (⟨offset + 1, x :: before, xs⟩ :: done) xs
    else done

def runFrom (test : Char → Bool) (most : Option Nat) (c : Cursor) : List Cursor :=
  run test most 0 c.offset c.before [c] c.after

/-- The first success from several places. -/
def firstOf (k : Matcher) (caps : Captures) : List Cursor → Outcome
  | [] => none
  | c :: cs =>
    match k c caps with
    | some r => some r
    | none => firstOf k caps cs

/-- Repeats a single character: the places in reach are known at once, and only their order
depends on the greed. -/
def repeatChar (test : Char → Bool) (greed : Greed) (least : Nat) (most : Option Nat)
    (k : Matcher) : Matcher := fun c caps =>
  let places := runFrom test most c
  let enough := places.take (places.length - least)
  match greed with
  | .greedy => firstOf k caps enough
  | .reluctant => firstOf k caps enough.reverse
  | .possessive => firstOf k caps (enough.take 1)

/-- Repeats a body greedily or reluctantly, `count` times so far. An iteration beyond the required
ones starts only where the one before did not. -/
def repeatBody (body : Matcher → Matcher) (reluctant : Bool) (least : Nat) (most : Option Nat)
    (k : Matcher) : Nat → Nat → Option Nat → Matcher
  | 0, _, _ => fun _ _ => none
  | fuel + 1, count, last => fun c caps =>
    if count < least then
      body (repeatBody body reluctant least most k fuel (count + 1) last) c caps
    else
      let again : Unit → Outcome := fun _ =>
        if below count most && last ≠ some c.offset then
          body (repeatBody body reluctant least most k fuel (count + 1) (some c.offset)) c caps
        else none
      if reluctant then
        match k c caps with
        | some r => some r
        | none => again ()
      else
        match again () with
        | some r => some r
        | none => k c caps

/-- Repeats a body and keeps every iteration. -/
def repeatKept (once : Matcher) (least : Nat) (most : Option Nat) :
    Nat → Nat → Option Nat → Matcher
  | 0, _, _ => fun _ _ => none
  | fuel + 1, count, last => fun c caps =>
    if count < least then
      match once c caps with
      | some (d, caps) => repeatKept once least most fuel (count + 1) last d caps
      | none => none
    else if below count most && last ≠ some c.offset then
      match once c caps with
      | some (d, later) => repeatKept once least most fuel (count + 1) (some c.offset) d later
      | none => some (c, caps)
    else some (c, caps)

/-- Ends a match where it stands. -/
def finish : Matcher := fun c caps => some (c, caps)

def lookup? (n : Nat) : Captures → Option Text
  | [] => none
  | (m, s) :: caps => if m = n then some s else lookup? n caps

/-- Runs a node on a text of a given length, and then what has to follow. -/
def Node.run (length : Nat) : Node → Matcher → Matcher
  | .empty, k => k
  | .literal m negated code, k => step (fun c => m.same code (m.folded c) != negated) k
  | .set m negated members, k =>
    step (fun c =>
      let c := m.folded c
      members.any (Member.has m c) != negated) k
  | .any dotAll, k => step (fun c => dotAll || c != '\n') k
  | .anchor m a, k => fun c caps => if a.holds m c then k c caps else none
  | .concat a b, k => a.run length (b.run length k)
  | .branch a b, k => fun c caps =>
    match a.run length k c caps with
    | some r => some r
    | none => b.run length k c caps
  | .group none a, k => a.run length k
  | .group (some n) a, k => fun c caps =>
    a.run length (fun d later => k d ((n, c.textTo d) :: later)) c caps
  | .backreference m n, k => fun c caps =>
    match lookup? n caps with
    | none => none
    | some s =>
      match follow m s c with
      | none => none
      | some d => k d caps
  | .repetition greed least most a, k =>
    match a.test? with
    | some test => repeatChar test greed least most k
    | none =>
      match greed with
      | .possessive => fun c caps =>
        match repeatKept (a.run length finish) least most (least + length + 2) 0 none c caps with
        | some (d, later) => k d later
        | none => none
      | .greedy => repeatBody (a.run length) false least most k (least + length + 2) 0 none
      | .reluctant => repeatBody (a.run length) true least most k (least + length + 2) 0 none
  | .look behind negated a, k => fun c caps =>
    let found :=
      match behind with
      | none => a.run length finish c caps
      | some w =>
        match Cursor.back? w.least c with
        | none => none
        | some d => a.run length finish d caps
    match found with
    | some (_, later) => if negated then none else k c later
    | none => if negated then k c caps else none
  | .atomic a, k => fun c caps =>
    match a.run length finish c caps with
    | some (d, later) => k d later
    | none => none
  | .conditional n a b, k => fun c caps =>
    if (lookup? n caps).isSome then a.run length k c caps else b.run length k c caps

end ConfigCare.Regex
