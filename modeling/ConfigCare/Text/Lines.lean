import ConfigCare.Text.Blank
/-!
The physical lines of a text: separated by a line feed, which a carriage return may precede. Lines
are gone through one after another, each knowing what the lines before it left behind.
-/

namespace ConfigCare.Text

/-- Takes the carriage return off the end of a line. -/
def dropReturn (l : Text) : Text :=
  match l.reverse with
  | '\r' :: r => r.reverse
  | _ => l

/-- A carriage return belongs to a line break only before a line feed, so the last line keeps it. -/
def dropReturns (ls : List Text) : List Text := ls.dropLast.map dropReturn ++ ls.drop (ls.length - 1)

def lines (s : Text) : List Text := dropReturns (splitOn '\n' s)

/-- Drops the line feeds at the end. -/
def dropLastBreaks (s : Text) : Text := (s.reverse.dropWhile (· == '\n')).reverse

/-- Lines as one text that ends in exactly one line feed. -/
def unlines (ls : List Text) : Text := dropLastBreaks (joinWith ['\n'] ls) ++ ['\n']

variable {σ α β : Type}

/-- Maps the elements of a list in order, with a state that each step hands to the next; `done` are
the results so far, last first. -/
def threadedFrom (step : σ → α → σ × β) (s : σ) (done : List β) : List α → List β
  | [] => done.reverse
  | x :: xs => threadedFrom step (step s x).1 ((step s x).2 :: done) xs

def threaded (step : σ → α → σ × β) (s : σ) (xs : List α) : List β := threadedFrom step s [] xs

theorem threadedFrom_eq (step : σ → α → σ × β) (s : σ) (done : List β) (xs : List α) :
    threadedFrom step s done xs = done.reverse ++ threaded step s xs := by
  induction xs generalizing s done with
  | nil => simp [threadedFrom, threaded]
  | cons x xs ih => simp only [threaded, threadedFrom]; rw [ih, ih _ [_]]; simp

@[simp] theorem threaded_nil (step : σ → α → σ × β) (s : σ) : threaded step s [] = [] := rfl

@[simp] theorem threaded_cons (step : σ → α → σ × β) (s : σ) (x : α) (xs : List α) :
    threaded step s (x :: xs) = (step s x).2 :: threaded step (step s x).1 xs := by
  rw [threaded, threadedFrom, threadedFrom_eq]; rfl

end ConfigCare.Text
