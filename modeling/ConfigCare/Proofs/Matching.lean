import Mathlib.Data.List.Basic
import Mathlib.Tactic.Common
import ConfigCare.Regex.Search

/-! A match ends at a later place of the text in which it begins. Every node runs what has to follow
it at such places only, whatever that is, and so does every way of repeating one. -/

namespace ConfigCare.Regex

namespace Cursor

/-- The place at an offset of a text. -/
def inText (s : Text) (n : Nat) : Cursor := ⟨n, (s.take n).reverse, s.drop n⟩

/-- Whether a place is another one or lies behind it in the same text. -/
def Reaches (c d : Cursor) : Prop :=
  ∃ w, c.after = w ++ d.after ∧ d.before = w.reverse ++ c.before ∧ d.offset = c.offset + w.length

theorem Reaches.refl (c : Cursor) : c.Reaches c := ⟨[], rfl, rfl, rfl⟩

theorem Reaches.trans {c d e : Cursor} (h : c.Reaches d) (h' : d.Reaches e) : c.Reaches e := by
  obtain ⟨v, hafter, hbefore, hoffset⟩ := h
  obtain ⟨w, hafter', hbefore', hoffset'⟩ := h'
  refine ⟨v ++ w, ?_, ?_, ?_⟩
  · rw [hafter, hafter', List.append_assoc]
  · rw [hbefore', hbefore, List.reverse_append, List.append_assoc]
  · rw [hoffset', hoffset, List.length_append, Nat.add_assoc]

theorem reaches_next {c : Cursor} {x : Char} {xs : Text} (h : c.after = x :: xs) :
    c.Reaches ⟨c.offset + 1, x :: c.before, xs⟩ :=
  ⟨[x], h, rfl, rfl⟩

/-- The places behind an offset of a text are the later offsets. -/
theorem Reaches.eq_inText {s : Text} {n : Nat} {d : Cursor} (hn : n ≤ s.length)
    (h : (inText s n).Reaches d) : n ≤ d.offset ∧ d.offset ≤ s.length ∧ d = inText s d.offset := by
  obtain ⟨w, hafter, hbefore, hoffset⟩ := h
  obtain ⟨m, before, after⟩ := d
  simp only [inText] at hafter hbefore hoffset ⊢
  have hs : s = s.take n ++ (w ++ after) := by rw [← hafter, List.take_append_drop]
  have hlength : (s.take n ++ w).length = m := by
    rw [List.length_append, List.length_take_of_le hn, hoffset]
  rw [← List.append_assoc] at hs
  refine ⟨by omega, ?_, ?_⟩
  · rw [hs, List.length_append, hlength]
    exact Nat.le_add_right m _
  · rw [mk.injEq]
    refine ⟨rfl, ?_, ?_⟩
    · rw [hs, List.take_left' hlength, List.reverse_append, hbefore]
    · rw [hs, List.drop_left' hlength]

end Cursor

open ConfigCare.Regex.Cursor (Reaches reaches_next)

/-- What `f` finds it finds by going on from a place behind the one where it begins. -/
def GoesOn (f : Matcher → Matcher) : Prop :=
  ∀ k c caps r, f k c caps = some r → ∃ d later, c.Reaches d ∧ k d later = some r

theorem goesOn_step (test : Char → Bool) : GoesOn (step test) := by
  intro k c caps r h
  unfold step at h
  split at h
  · cases h
  · next x xs hafter =>
    split at h
    · exact ⟨_, _, reaches_next hafter, h⟩
    · cases h

theorem reaches_follow {m : Mode} {t : Text} {c d : Cursor} (h : follow m t c = some d) :
    c.Reaches d := by
  induction t generalizing c with
  | nil => cases h; exact .refl _
  | cons x xs ih =>
    unfold follow at h
    split at h
    · cases h
    · next y ys hafter =>
      split at h
      · exact (reaches_next hafter).trans (ih h)
      · cases h

/-! ## Repetitions -/

theorem reaches_run {test : Char → Bool} {most : Option Nat} {c : Cursor} (n : Nat) {s : Text}
    {offset : Nat} {before : Text} {done : List Cursor} (hplace : c.Reaches ⟨offset, before, s⟩)
    (hdone : ∀ d ∈ done, c.Reaches d) : ∀ d ∈ run test most n offset before done s, c.Reaches d := by
  induction s generalizing n offset before done with
  | nil => exact hdone
  | cons x xs ih =>
    unfold run
    split
    · have hnext := hplace.trans (reaches_next (c := ⟨offset, before, x :: xs⟩) rfl)
      refine ih (n + 1) hnext fun d hd => ?_
      rcases List.mem_cons.1 hd with rfl | hd
      · exact hnext
      · exact hdone d hd
    · exact hdone

theorem reaches_runFrom {test : Char → Bool} {most : Option Nat} {c : Cursor} :
    ∀ d ∈ runFrom test most c, c.Reaches d :=
  reaches_run 0 (.refl c) (by simp [Reaches.refl])

theorem exists_of_firstOf {k : Matcher} {caps : Captures} {cs : List Cursor}
    {r : Cursor × Captures} (h : firstOf k caps cs = some r) : ∃ d ∈ cs, k d caps = some r := by
  induction cs with
  | nil => cases h
  | cons c cs ih =>
    unfold firstOf at h
    split at h
    · next r' hr =>
      cases h
      exact ⟨c, by simp, hr⟩
    · obtain ⟨d, hd, hk⟩ := ih h
      exact ⟨d, by simp [hd], hk⟩

theorem goesOn_repeatChar (test : Char → Bool) (greed : Greed) (least : Nat) (most : Option Nat) :
    GoesOn (repeatChar test greed least most) := by
  intro k c caps r h
  have htake : ∀ m, ∀ d ∈ (runFrom test most c).take m, c.Reaches d :=
    fun m d hd => reaches_runFrom d (List.mem_of_mem_take hd)
  cases greed with
  | greedy =>
    obtain ⟨d, hd, hk⟩ := exists_of_firstOf h
    exact ⟨d, caps, htake _ d hd, hk⟩
  | reluctant =>
    obtain ⟨d, hd, hk⟩ := exists_of_firstOf h
    exact ⟨d, caps, htake _ d (List.mem_reverse.1 hd), hk⟩
  | possessive =>
    obtain ⟨d, hd, hk⟩ := exists_of_firstOf h
    exact ⟨d, caps, htake _ d (List.mem_of_mem_take hd), hk⟩

theorem GoesOn.repeatBody {body : Matcher → Matcher} (hbody : GoesOn body) (reluctant : Bool)
    (least : Nat) (most : Option Nat) (fuel count : Nat) (last : Option Nat) :
    GoesOn fun k => Regex.repeatBody body reluctant least most k fuel count last := by
  induction fuel generalizing count last with
  | zero => intro k c caps r h; cases h
  | succ fuel ih =>
    intro k c caps r h
    have again : ∀ {last}, body (Regex.repeatBody body reluctant least most k fuel (count + 1) last)
        c caps = some r → ∃ d later, c.Reaches d ∧ k d later = some r := by
      intro last hr
      obtain ⟨d, later, hd, hrest⟩ := hbody _ _ _ _ hr
      obtain ⟨e, latest, he, hk⟩ := ih _ _ k d later r hrest
      exact ⟨e, latest, hd.trans he, hk⟩
    have stop : k c caps = some r → ∃ d later, c.Reaches d ∧ k d later = some r :=
      fun hk => ⟨c, caps, .refl c, hk⟩
    simp only [Regex.repeatBody] at h
    grind

/-- What is kept of the iterations ends behind the place where they begin. -/
theorem reaches_repeatKept {once : Matcher}
    (honce : ∀ c caps d later, once c caps = some (d, later) → c.Reaches d) {least : Nat}
    {most : Option Nat} {fuel count : Nat} {last : Option Nat} {c d : Cursor}
    {caps later : Captures}
    (h : repeatKept once least most fuel count last c caps = some (d, later)) : c.Reaches d := by
  induction fuel generalizing count last c caps with
  | zero => cases h
  | succ fuel ih =>
    have := Reaches.refl c
    simp only [repeatKept] at h
    grind [Reaches.trans]

/-! ## Nodes -/

variable {f g : Matcher → Matcher}

/-- What is found with nothing to follow ends behind the place where it begins. -/
theorem GoesOn.reaches (hf : GoesOn f) {c d : Cursor} {caps later : Captures}
    (h : f finish c caps = some (d, later)) : c.Reaches d := by
  obtain ⟨e, latest, he, hfinish⟩ := hf _ _ _ _ h
  cases hfinish
  exact he

theorem GoesOn.concat (hf : GoesOn f) (hg : GoesOn g) : GoesOn fun k => f (g k) := by
  intro k c caps r h
  obtain ⟨d, later, hd, hrest⟩ := hf _ _ _ _ h
  obtain ⟨e, latest, he, hk⟩ := hg _ _ _ _ hrest
  exact ⟨e, latest, hd.trans he, hk⟩

theorem GoesOn.branch (hf : GoesOn f) (hg : GoesOn g) : GoesOn fun k c caps =>
    match f k c caps with
    | some r => some r
    | none => g k c caps := by
  intro k c caps r h
  dsimp only at h
  split at h
  · next r' hr =>
    cases h
    exact hf _ _ _ _ hr
  · exact hg _ _ _ _ h

/-- A search of its own is gone on from where it has ended, and never taken up again. -/
theorem goesOn_kept {once : Matcher}
    (honce : ∀ c caps d later, once c caps = some (d, later) → c.Reaches d) :
    GoesOn fun k c caps =>
      match once c caps with
      | some (d, later) => k d later
      | none => none := by
  intro k c caps r h
  dsimp only at h
  split at h
  · next d later hkept => exact ⟨d, later, honce _ _ _ _ hkept, h⟩
  · cases h

/-- Whatever is seen from a place, the text is gone on with at that place. -/
theorem exists_of_look {found : Outcome} {negated : Bool} {k : Matcher} {c : Cursor}
    {caps : Captures} {r : Cursor × Captures}
    (h : (match found with
      | some (_, later) => if negated then none else k c later
      | none => if negated then k c caps else none) = some r) : ∃ later, k c later = some r := by
  split at h
  · next later =>
    split at h
    · cases h
    · exact ⟨later, h⟩
  · split at h
    · exact ⟨caps, h⟩
    · cases h

theorem goesOn_run (length : Nat) (n : Node) : GoesOn (n.run length) := by
  induction n with
  | empty => intro k c caps r h; exact ⟨c, caps, .refl c, h⟩
  | literal m negated code => exact goesOn_step _
  | set m negated members => exact goesOn_step _
  | any dotAll => exact goesOn_step _
  | anchor m a =>
    intro k c caps r h
    simp only [Node.run] at h
    split at h
    · exact ⟨c, caps, .refl c, h⟩
    · cases h
  | concat a b iha ihb => exact iha.concat ihb
  | branch a b iha ihb => exact iha.branch ihb
  | group number a ih =>
    cases number with
    | none => exact ih
    | some n =>
      intro k c caps r h
      obtain ⟨d, later, hd, hk⟩ := ih _ _ _ _ h
      exact ⟨d, _, hd, hk⟩
  | backreference m n =>
    intro k c caps r h
    simp only [Node.run] at h
    split at h
    · cases h
    · split at h
      · cases h
      · next d hd => exact ⟨d, caps, reaches_follow hd, h⟩
  | repetition greed least most a ih =>
    intro k c caps r h
    cases htest : a.test? with
    | some test =>
      simp only [Node.run, htest] at h
      exact goesOn_repeatChar test greed least most k c caps r h
    | none =>
      simp only [Node.run, htest] at h
      cases greed with
      | greedy => exact ih.repeatBody _ _ _ _ _ _ k c caps r h
      | reluctant => exact ih.repeatBody _ _ _ _ _ _ k c caps r h
      | possessive =>
        have hkept : ∀ c caps d later, repeatKept (a.run length finish) least most
            (least + length + 2) 0 none c caps = some (d, later) → c.Reaches d :=
          fun _ _ _ _ => reaches_repeatKept fun _ _ _ _ => ih.reaches
        exact goesOn_kept hkept k c caps r h
  | look behind negated a ih =>
    intro k c caps r h
    obtain ⟨later, hk⟩ := exists_of_look h
    exact ⟨c, later, .refl c, hk⟩
  | atomic a ih => exact goesOn_kept fun _ _ _ _ => ih.reaches
  | conditional n a b iha ihb =>
    intro k c caps r h
    simp only [Node.run] at h
    split at h
    · exact iha _ _ _ _ h
    · exact ihb _ _ _ _ h

/-- A match ends behind the place where it begins, and if it must not be empty, not right there. -/
theorem reaches_of_matchAt? {p : Pattern} {length : Nat} {advance : Bool} {c d : Cursor}
    (h : p.matchAt? length advance c = some d) :
    c.Reaches d ∧ (advance = true → d.offset ≠ c.offset) := by
  obtain ⟨⟨d', later⟩, hrun, rfl⟩ := Option.map_eq_some_iff.1 h
  obtain ⟨e, latest, he, hfound⟩ := goesOn_run length p.root _ _ _ _ hrun
  split at hfound
  · cases hfound
  · next hkept =>
    cases hfound
    exact ⟨he, fun hadvance => by simpa [hadvance] using hkept⟩

end ConfigCare.Regex
