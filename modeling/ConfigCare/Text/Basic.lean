/-!
Text as a list of characters, with the few operations on it that the library is built from:
searching, replacing, splitting and joining. The lemmas say what each one leaves intact.
-/

namespace ConfigCare

/-- A text is the list of its characters; offsets, lengths and columns count them. -/
abbrev Text := List Char

namespace Text

/-- The text written as a string literal. -/
abbrev lit (s : String) : Text := s.toList

/-- The text after a given beginning, if it has that beginning. -/
def dropStart? : Text → Text → Option Text
  | [], s => some s
  | _ :: _, [] => none
  | p :: ps, c :: cs => if p = c then dropStart? ps cs else none

def startsWith (p s : Text) : Bool := (dropStart? p s).isSome

theorem eq_append_of_dropStart? {p s r : Text} (h : dropStart? p s = some r) : s = p ++ r := by
  induction p generalizing s with
  | nil => simpa [dropStart?] using h
  | cons p ps ih =>
    cases s with
    | nil => simp [dropStart?] at h
    | cons c cs =>
      by_cases hc : p = c
      · simp only [dropStart?, hc, if_true] at h
        simp [ih h, hc]
      · simp [dropStart?, hc] at h

theorem dropStart?_append (p r : Text) : dropStart? p (p ++ r) = some r := by
  induction p with
  | nil => rfl
  | cons p ps ih => simpa [dropStart?] using ih

theorem startsWith_iff {p s : Text} : startsWith p s = true ↔ p <+: s := by
  rw [startsWith, Option.isSome_iff_exists]
  constructor
  · rintro ⟨r, hr⟩
    exact ⟨r, (eq_append_of_dropStart? hr).symm⟩
  · rintro ⟨r, rfl⟩
    exact ⟨r, dropStart?_append p r⟩

/-- Whether `p` occurs somewhere in a text. -/
def occursIn (p : Text) : Text → Bool
  | [] => p.isEmpty
  | c :: cs => startsWith p (c :: cs) || occursIn p cs

theorem occursIn_iff {p s : Text} : occursIn p s = true ↔ p <:+: s := by
  induction s with
  | nil => simp [occursIn]
  | cons c cs ih => rw [occursIn, Bool.or_eq_true, startsWith_iff, ih, List.infix_cons_iff]

def endsWithAny (cs : List Char) (s : Text) : Bool :=
  match s.getLast? with
  | some c => cs.contains c
  | none => false

/-- The offset of the first occurrence of `p`. -/
def indexOf? (p : Text) : Text → Option Nat
  | [] => if p.isEmpty then some 0 else none
  | c :: cs => if startsWith p (c :: cs) then some 0 else (indexOf? p cs).map (· + 1)

/-- Every occurrence of `old`, from the left and without overlap, becomes `new`; `skip` counts
the characters of the occurrence still to be passed over. -/
def replaceFrom (old new : Text) : Nat → Text → Text
  | _, [] => []
  | skip + 1, _ :: cs => replaceFrom old new skip cs
  | 0, c :: cs =>
    if startsWith old (c :: cs) then new ++ replaceFrom old new (old.length - 1) cs
    else c :: replaceFrom old new 0 cs

/-- Replaces a non-empty text; the empty one has no occurrence. -/
def replace (old new s : Text) : Text :=
  if old.isEmpty then s else replaceFrom old new 0 s

/-- The pieces between the separators, empty ones included, so there is at least one. -/
def splitOn (sep : Char) (s : Text) : List Text :=
  go [] s
where
  go (piece : Text) : Text → List Text
    | [] => [piece.reverse]
    | c :: cs => if c = sep then piece.reverse :: go [] cs else go (c :: piece) cs

def joinWith (sep : Text) : List Text → Text
  | [] => []
  | [p] => p
  | p :: q :: ps => p ++ sep ++ joinWith sep (q :: ps)

theorem splitOn.go_ne_nil (sep : Char) (piece s : Text) : splitOn.go sep piece s ≠ [] := by
  induction s generalizing piece with
  | nil => simp [splitOn.go]
  | cons c cs ih =>
    by_cases h : c = sep
    · simp [splitOn.go, h]
    · simpa [splitOn.go, h] using ih _

theorem splitOn_ne_nil (sep : Char) (s : Text) : splitOn sep s ≠ [] := splitOn.go_ne_nil sep [] s

theorem joinWith_cons (sep p : Text) {ps : List Text} (h : ps ≠ []) :
    joinWith sep (p :: ps) = p ++ sep ++ joinWith sep ps := by
  cases ps with
  | nil => exact absurd rfl h
  | cons q ps => rfl

theorem joinWith_splitOn_go (sep : Char) (piece s : Text) :
    joinWith [sep] (splitOn.go sep piece s) = piece.reverse ++ s := by
  induction s generalizing piece with
  | nil => simp [splitOn.go, joinWith]
  | cons c cs ih =>
    by_cases h : c = sep
    · rw [splitOn.go, if_pos h, joinWith_cons _ _ (splitOn.go_ne_nil _ _ _), ih]
      simp [h]
    · rw [splitOn.go, if_neg h, ih]
      simp

/-- Splitting loses nothing. -/
theorem joinWith_splitOn (sep : Char) (s : Text) : joinWith [sep] (splitOn sep s) = s := by
  rw [splitOn, joinWith_splitOn_go]; rfl

def repeated (s : Text) : Nat → Text
  | 0 => []
  | n + 1 => s ++ repeated s n

end Text

end ConfigCare
