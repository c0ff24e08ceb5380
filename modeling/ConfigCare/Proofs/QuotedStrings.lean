import Mathlib.Tactic
import ConfigCare.Toml.Reader

/-! What a TOML string is read from: a literal that is a part of the text, and that is read as the
same string wherever it is taken whole. The literals of a text are all that stands in quotes outside
of comments. -/

namespace ConfigCare

namespace Text

theorem startsWith_append {p l : Text} (hl : p.length ≤ l.length) (x y : Text) :
    startsWith p (l ++ x) = startsWith p (l ++ y) := by
  rw [Bool.eq_iff_iff, startsWith_iff, startsWith_iff, List.isPrefix_append_of_length hl,
    List.isPrefix_append_of_length hl]

theorem startsWith_cons_ne {p q : Char} (h : p ≠ q) (ps x : Text) :
    startsWith (p :: ps) (q :: x) = false := by
  simp [startsWith, dropStart?, h]

/-- Where a delimiter is found first, it is found whatever comes behind it. -/
theorem exists_indexOf? {d x : Text} (hd : d ≠ []) {n : Nat} (h : indexOf? d x = some n) :
    ∃ s r, x = s ++ (d ++ r) ∧ s.length = n ∧
      ∀ z, indexOf? d (s ++ (d ++ z)) = some n := by
  obtain ⟨e, ds, rfl⟩ := List.exists_cons_of_ne_nil hd
  induction x generalizing n with
  | nil => cases h
  | cons c cs ih =>
    rw [indexOf?] at h
    split at h
    · next hs =>
      cases h
      obtain ⟨r, hr⟩ := startsWith_iff.1 hs
      refine ⟨[], r, hr.symm, rfl, fun z => ?_⟩
      have hz : startsWith (e :: ds) ([] ++ (e :: ds ++ z)) = true :=
        startsWith_iff.2 (List.prefix_append _ _)
      exact if_pos hz
    · next hs =>
      obtain ⟨k, hk, rfl⟩ := Option.map_eq_some_iff.1 h
      obtain ⟨s, r, rfl, rfl, hz⟩ := ih hk
      refine ⟨c :: s, r, rfl, rfl, fun z => ?_⟩
      -- the delimiter is no longer than what the two texts have in common
      have hlen : (e :: ds).length ≤ (c :: s ++ e :: ds).length := by simp; omega
      have hz' : ¬ startsWith (e :: ds) (c :: (s ++ (e :: ds ++ z))) = true := by
        rw [startsWith_iff] at hs ⊢
        rw [← List.append_assoc, ← List.cons_append, ← List.cons_append,
          List.isPrefix_append_of_length hlen] at hs ⊢
        exact hs
      rw [List.cons_append, indexOf?, if_neg hz', hz]; rfl

end Text

namespace Toml

/-! ## Strings and what comes behind them -/

/-- A text that is read as the rest of a basic string, closing quotes included, whatever comes
behind it. -/
structure Closes (multiline : Bool) (trim : Trim) (done v q : Text) : Prop where
  last : q.getLast? = some '"'
  long : multiline = true → 3 ≤ q.length
  reads : ∀ o z, basicFrom multiline trim done o (q ++ z) = .ok (v, ⟨o + q.length, z⟩)

theorem Closes.step {multiline : Bool} {trim trim' : Trim} {done done' v q : Text}
    (h : Closes multiline trim' done' v q) (p : Text)
    (hp : ∀ o z, basicFrom multiline trim done o (p ++ (q ++ z)) =
      basicFrom multiline trim' done' (o + p.length) (q ++ z)) :
    Closes multiline trim done v (p ++ q) where
  last := by rw [List.getLast?_append, h.last]; rfl
  long hm := by have := h.long hm; rw [List.length_append]; omega
  reads o z := by rw [List.append_assoc, hp, h.reads, List.length_append, Nat.add_assoc]

theorem hexChar_offset {ds : Text} {o : Nat} {x : Char} (h : hexChar ds o = .ok x) (o' : Nat) :
    hexChar ds o' = .ok x := by
  unfold hexChar at h ⊢
  split at h
  · cases h
  · next hd =>
    rw [if_neg hd]
    dsimp only at h ⊢
    split at h
    · cases h
    · next hn => rw [if_neg hn, ← h]

theorem basicFrom_escape {m : Bool} {t : Trim} (ht : ¬ t = .toBreak) {done : Text} {o : Nat}
    {e : Char} {rest : Text} (hu : e ≠ 'u') (hU : e ≠ 'U') :
    basicFrom m t done o ('\\' :: e :: rest) =
      if m && isSpace e then basicFrom m .toBreak done (o + 2) rest
      else if m && e = '\n' then basicFrom m .all done (o + 2) rest
      else
        match escaped? e with
        | some x => basicFrom m .nothing (x :: done) (o + 2) rest
        | none => fail .escape (o + 2) := by
  rw [basicFrom.eq_def]
  have hslash : isSpaceOrBreak '\\' = false := by decide
  have hhex : ¬ (e = 'u' || e = 'U') := by simp [hu, hU]
  simp only [ht, if_false, hslash, Bool.and_false, Bool.false_eq_true, Char.reduceEq]
  rw [if_pos trivial]
  split
  · next heq => cases heq
  · next heq => cases heq; exact absurd rfl hu
  · next heq => cases heq; exact absurd rfl hU
  · next heq =>
    cases heq
    exact if_congr Iff.rfl rfl (if_congr Iff.rfl rfl (if_neg hhex))

theorem closes_of_basicFrom {m : Bool} {t : Trim} {done : Text} {o : Nat} {s v : Text} {c : Cursor}
    (h : basicFrom m t done o s = .ok (v, c)) :
    ∃ q, s = q ++ c.rest ∧ Closes m t done v q := by
  fun_induction basicFrom m t done o s with
  | case2 done o d cs hd ih =>
    obtain ⟨q, rfl, hq⟩ := ih h
    refine ⟨d :: q, rfl, hq.step [d] fun o z => ?_⟩
    rw [basicFrom.eq_def]
    simp [hd]
  | case3 done o cs hd ih =>
    obtain ⟨q, rfl, hq⟩ := ih h
    refine ⟨'\n' :: q, rfl, hq.step ['\n'] fun o z => ?_⟩
    rw [basicFrom.eq_def]
    simp [hd]
  | case5 t done o d cs ht hd ih =>
    obtain ⟨q, rfl, hq⟩ := ih h
    refine ⟨d :: q, rfl, hq.step [d] fun o z => ?_⟩
    rw [basicFrom.eq_def]
    simp [ht, hd]
  | case6 t done o cs ht hm hd =>
    cases h
    refine ⟨['"'], rfl, rfl, by simp_all, fun o z => ?_⟩
    rw [basicFrom.eq_def]
    simp [ht, hd, hm]
  | case7 t done o ht hm rest hd =>
    cases h
    refine ⟨['"', '"', '"'], rfl, rfl, fun _ => le_rfl, fun o z => ?_⟩
    rw [basicFrom.eq_def]
    simp [ht, hd, hm]
  | case8 t done o cs ht hm hcs hd ih =>
    obtain ⟨q, rfl, hq⟩ := ih h
    refine ⟨'"' :: q, rfl, hq.step ['"'] fun o z => ?_⟩
    -- two more quotes would stand in `q`, which is long enough
    obtain ⟨a, b, r, rfl⟩ : ∃ a b r, q = a :: b :: r := by
      have := hq.long (by simpa using hm)
      match q, this with
      | a :: b :: r, _ => exact ⟨a, b, r, rfl⟩
    rw [basicFrom.eq_def]
    simp only [ht, hd, hm, if_true, if_false, Bool.false_eq_true, List.cons_append]
    split
    · next heq => cases heq; exact (hcs _ rfl).elim
    · rfl
  | case11 t done o ht x₁ x₂ x₃ x₄ rest x hx hd hq ih =>
    obtain ⟨q, rfl, hq⟩ := ih h
    refine ⟨['\\', 'u', x₁, x₂, x₃, x₄] ++ q, rfl, hq.step _ fun o z => ?_⟩
    rw [basicFrom.eq_def]
    simp [ht, hd, hexChar_offset hx]
  | case13 t done o ht x₁ x₂ x₃ x₄ x₅ x₆ x₇ x₈ rest x hx hd hq ih =>
    obtain ⟨q, rfl, hq⟩ := ih h
    refine ⟨['\\', 'U', x₁, x₂, x₃, x₄, x₅, x₆, x₇, x₈] ++ q, rfl, hq.step _ fun o z => ?_⟩
    rw [basicFrom.eq_def]
    simp [ht, hd, hexChar_offset hx]
  | case14 t done o ht e rest hu hU he hd hq ih =>
    obtain ⟨q, rfl, hq⟩ := ih h
    refine ⟨['\\', e] ++ q, rfl, hq.step _ fun o z => ?_⟩
    have hspace : isSpace e = true := by simp_all
    rw [List.cons_append, List.singleton_append,
      basicFrom_escape ht (by rintro rfl; simp [isSpace] at hspace)
        (by rintro rfl; simp [isSpace] at hspace), if_pos he]
    rfl
  | case15 t done o ht e rest hu hU he hbreak hd hq ih =>
    obtain ⟨q, rfl, hq⟩ := ih h
    refine ⟨['\\', e] ++ q, rfl, hq.step _ fun o z => ?_⟩
    have heq : e = '\n' := by simp_all
    rw [List.cons_append, List.singleton_append,
      basicFrom_escape ht (by simp [heq]) (by simp [heq]), if_neg he, if_pos hbreak]
    rfl
  | case17 t done o ht e rest hu hU he hbreak hhex x hx hd hq ih =>
    obtain ⟨q, rfl, hq⟩ := ih h
    refine ⟨['\\', e] ++ q, rfl, hq.step _ fun o z => ?_⟩
    have hne : e ≠ 'u' ∧ e ≠ 'U' := by simpa using hhex
    rw [List.cons_append, List.singleton_append, basicFrom_escape ht hne.1 hne.2, if_neg he,
      if_neg hbreak, hx]
    rfl
  | case20 t done o d cs ht h₁ h₂ h₃ h₄ ih =>
    obtain ⟨q, rfl, hq⟩ := ih h
    refine ⟨d :: q, rfl, hq.step [d] fun o z => ?_⟩
    rw [basicFrom.eq_def]
    simp [ht, h₁, h₂, h₃, h₄]
  | _ => cases h

theorem forbiddenFrom_eq_none_iff {b : Bool} {o : Nat} {s : Text} :
    forbiddenFrom b o s = none ↔ ∀ c ∈ s, isForbidden b c = false := by
  induction s generalizing o with
  | nil => simp [forbiddenFrom]
  | cons c cs ih =>
    rw [forbiddenFrom, List.forall_mem_cons]
    cases hc : isForbidden b c <;> simp [ih]

/-- A step that takes exactly one text, whatever comes behind it. -/
def Takes (f : Step Text) (l v : Text) : Prop :=
  ∀ o z, f ⟨o, l ++ z⟩ = .ok (v, ⟨o + l.length, z⟩)

theorem takes_upTo {d : Text} (hd : d ≠ []) {b : Bool} {c c' : Cursor} {s : Text}
    (h : upTo d b c = .ok (s, c')) : c.rest = s ++ d ++ c'.rest ∧ Takes (upTo d b) (s ++ d) s := by
  unfold upTo at h
  split at h
  · cases h
  · next n hn =>
    dsimp only at h
    split at h
    · cases h
    · next hf =>
      obtain ⟨t, r, hr, rfl, hz⟩ := Text.exists_indexOf? hd hn
      rw [hr, List.take_left] at hf
      cases h
      rw [hr, List.take_left]
      refine ⟨by simp [Cursor.drop, hr], fun o z => ?_⟩
      rw [List.append_assoc]
      simp only [upTo, hz, List.take_left,
        forbiddenFrom_eq_none_iff.2 (forbiddenFrom_eq_none_iff.1 hf)]
      simp [Cursor.drop]

/-- The quotes that are still taken behind the last three of a string, and what is left then. -/
structure Surplus (q : Char) (e r : Text) : Prop where
  quotes : ∀ c ∈ e, c = q
  upToTwo : e.length ≤ 2
  all : e.length < 2 → r.head? ≠ some q

theorem exists_surplus (q : Char) (x : Text) : ∃ e r, x = e ++ r ∧ Surplus q e r := by
  rcases x with _ | ⟨a, _ | ⟨b, r⟩⟩
  · exact ⟨[], [], rfl, by simp, by simp, by simp⟩
  · by_cases ha : a = q
    · exact ⟨[a], [], rfl, by simp [ha], by simp, by simp⟩
    · exact ⟨[], [a], rfl, by simp, by simp, by simp [ha]⟩
  · by_cases ha : a = q
    · by_cases hb : b = q
      · exact ⟨[a, b], r, rfl, by simp [ha, hb], by simp, by simp⟩
      · exact ⟨[a], b :: r, rfl, by simp [ha], by simp, by simp [hb]⟩
    · exact ⟨[], a :: b :: r, rfl, by simp, by simp, by simp [ha]⟩

theorem Surplus.moreQuotes_eq {q : Char} {e r : Text} (h : Surplus q e r) (v : Text) (o : Nat) :
    moreQuotes q (v, ⟨o, e ++ r⟩) = (v ++ e, ⟨o + e.length, r⟩) := by
  obtain ⟨hq, hlen, hall⟩ := h
  rcases e with _ | ⟨a, _ | ⟨b, _ | ⟨c, e⟩⟩⟩
  · have hr : r.head? ≠ some q := hall (by simp)
    rcases r with _ | ⟨a, _ | ⟨b, r⟩⟩ <;> simp_all [moreQuotes]
  · have hr : r.head? ≠ some q := hall (by simp)
    rcases r with _ | ⟨b, r⟩ <;> simp_all [moreQuotes, Cursor.drop]
  · simp_all [moreQuotes, Cursor.drop]
  · simp at hlen

/-- What is left matters only for whether one more quote begins it. -/
theorem Surplus.congr {q : Char} {e r r' : Text} (h : Surplus q e r)
    (hr : r.head? = some q ↔ r'.head? = some q) : Surplus q e r' where
  quotes := h.quotes
  upToTwo := h.upToTwo
  all hlen := mt hr.2 (h.all hlen)

def isQuote (c : Char) : Bool := c = '"' || c = '\''

/-- Reads a string between single quote characters. -/
def shortString (q : Char) : Step Text := if q = '"' then basic else literal

/-- Reads to the first three quote characters. -/
def longBody (q : Char) : Step Text :=
  if q = '"' then fun c => basicFrom true .nothing [] c.offset c.rest
  else upTo (threeQuotes '\'') true

/-- Reads a string between quote characters in threes, without those behind the last three. -/
def longString (q : Char) : Step Text := fun c => longBody q (skipBreak (c.drop 3))

theorem isQuote_iff {q : Char} : isQuote q = true ↔ q = '"' ∨ q = '\'' := by simp [isQuote]

theorem string_eq {q : Char} (hq : isQuote q) (o : Nat) (x : Text) :
    string ⟨o, q :: x⟩ =
      if Text.startsWith (threeQuotes q) (q :: x) then
        (longString q ⟨o, q :: x⟩).map (moreQuotes q)
      else shortString q ⟨o, q :: x⟩ := by
  rcases isQuote_iff.1 hq with rfl | rfl
  · have h := Text.startsWith_cons_ne (by decide : '\'' ≠ '"') ['\'', '\''] x
    simp only [string, threeQuotes, h]
    rfl
  · have h := Text.startsWith_cons_ne (by decide : '"' ≠ '\'') ['"', '"'] x
    simp only [string, threeQuotes, h]
    rfl

theorem takes_shortString {q : Char} (hq : isQuote q) {o : Nat} {x v : Text} {d : Cursor}
    (h : shortString q ⟨o, q :: x⟩ = .ok (v, d)) :
    ∃ l, q :: x = l ++ d.rest ∧ l.getLast? = some q ∧ Takes (shortString q) l v := by
  rcases isQuote_iff.1 hq with rfl | rfl
  · obtain ⟨l, hl, hc⟩ := closes_of_basicFrom
      (show basicFrom false .nothing [] (o + 1) x = _ from h)
    refine ⟨'"' :: l, congrArg _ hl, ?_, fun o z => ?_⟩
    · rw [List.getLast?_cons, hc.last]; rfl
    · have := hc.reads (o + 1) z
      rw [List.length_cons, Nat.add_comm l.length, ← Nat.add_assoc]
      exact this
  · obtain ⟨hl, ht⟩ := takes_upTo (List.cons_ne_nil _ _)
      (show upTo ['\''] false ⟨o + 1, x⟩ = _ from h)
    refine ⟨'\'' :: (v ++ ['\'']), congrArg _ hl, ?_, fun o z => ?_⟩
    · rw [List.getLast?_cons, List.getLast?_append]; rfl
    · have := ht (o + 1) z
      rw [List.length_cons, Nat.add_comm (v ++ ['\'']).length, ← Nat.add_assoc]
      exact this

theorem takes_longBody {q : Char} (hq : isQuote q) {c d : Cursor} {v : Text}
    (h : longBody q c = .ok (v, d)) :
    ∃ l, c.rest = l ++ d.rest ∧ l.getLast? = some q ∧ 3 ≤ l.length ∧ Takes (longBody q) l v := by
  rcases isQuote_iff.1 hq with rfl | rfl
  · obtain ⟨l, hl, hc⟩ := closes_of_basicFrom
      (show basicFrom true .nothing [] c.offset c.rest = _ from h)
    exact ⟨l, hl, hc.last, hc.long rfl, hc.reads⟩
  · obtain ⟨hl, ht⟩ := takes_upTo (List.cons_ne_nil _ _)
      (show upTo (threeQuotes '\'') true c = _ from h)
    exact ⟨_, hl, by rw [List.getLast?_append]; rfl, by simp, ht⟩

theorem takes_longString {q : Char} (hq : isQuote q) {o : Nat} {x v : Text} {d : Cursor}
    (hx : Text.startsWith (threeQuotes q) x) (h : longString q ⟨o, x⟩ = .ok (v, d)) :
    ∃ l, x = l ++ d.rest ∧ l.getLast? = some q ∧ 6 ≤ l.length ∧ Takes (longString q) l v := by
  obtain ⟨x, rfl⟩ := Text.startsWith_iff.1 hx
  by_cases hbreak : x.head? = some '\n'
  · obtain ⟨y, rfl⟩ : ∃ y, x = '\n' :: y := by
      cases x with
      | nil => cases hbreak
      | cons c y => cases hbreak; exact ⟨y, rfl⟩
    obtain ⟨l, hl, hlast, hlen, ht⟩ := takes_longBody hq (show longBody q ⟨o + 4, y⟩ = _ from h)
    refine ⟨threeQuotes q ++ '\n' :: l, ?_, ?_, ?_, fun o z => ?_⟩
    · rw [List.append_assoc, List.cons_append]
      exact congrArg (fun y => threeQuotes q ++ '\n' :: y) hl
    · rw [List.getLast?_append, List.getLast?_cons, hlast]; rfl
    · simp only [threeQuotes, List.length_append, List.length_cons, List.length_nil]; omega
    · have := ht (o + 4) z
      rw [List.length_append, List.length_cons, Nat.add_comm l.length, ← Nat.add_assoc,
        ← Nat.add_assoc]
      exact this
  · have hskip (o : Nat) {x : Text} (hx : x.head? ≠ some '\n') :
        longString q ⟨o, threeQuotes q ++ x⟩ = longBody q ⟨o + 3, x⟩ :=
      congrArg (longBody q) (if_neg hx)
    rw [hskip o hbreak] at h
    obtain ⟨l, hl, hlast, hlen, ht⟩ := takes_longBody hq h
    refine ⟨threeQuotes q ++ l, ?_, ?_, ?_, fun o z => ?_⟩
    · rw [List.append_assoc]; exact congrArg (threeQuotes q ++ ·) hl
    · rw [List.getLast?_append, hlast]; rfl
    · simp only [threeQuotes, List.length_append, List.length_cons, List.length_nil]; omega
    · obtain ⟨c, l, rfl⟩ : ∃ c l', l = c :: l' :=
        List.exists_cons_of_ne_nil (by rintro rfl; cases hlast)
      have hz : (c :: l ++ z).head? ≠ some '\n' := by
        dsimp only at hl
        rw [hl] at hbreak
        exact hbreak
      rw [List.append_assoc, hskip o hz, ht, List.length_append, ← Nat.add_assoc]
      rfl

/-- A text that is read as a string in front of another text, and is all that is read. -/
def ReadsAs (l v x : Text) : Prop := ∀ o, string ⟨o, l ++ x⟩ = .ok (v, ⟨o + l.length, x⟩)

theorem startsWith_threeQuotes {q : Char} {l x : Text}
    (h : Text.startsWith (threeQuotes q) (l ++ x)) (hl : 3 ≤ l.length) (z : Text) :
    Text.startsWith (threeQuotes q) (l ++ z) := by
  rw [← h]
  exact Text.startsWith_append (by simpa [threeQuotes] using hl) z x

/-- How a literal in front of a text is read: between single quote characters, or between threes
with more quotes behind the last three. -/
def Spelled (q : Char) (l v x : Text) : Prop :=
  ¬ Text.startsWith (threeQuotes q) (l ++ x) ∧ Takes (shortString q) l v ∨
    ∃ k u e, l = k ++ e ∧ v = u ++ e ∧ Text.startsWith (threeQuotes q) k ∧
      Takes (longString q) k u ∧ Surplus q e x

theorem readsAs_short {q : Char} (hq : isQuote q) {l v x : Text} (hl : l.head? = some q)
    (hs : ¬ Text.startsWith (threeQuotes q) (l ++ x)) (h : Takes (shortString q) l v) :
    ReadsAs l v x := by
  obtain ⟨l, rfl⟩ := List.head?_eq_some_iff.1 hl
  intro o
  rw [← h o x, List.cons_append, string_eq hq]
  exact if_neg hs

theorem startsWith_three_append {q : Char} {k : Text} (hk : Text.startsWith (threeQuotes q) k)
    (e x : Text) : Text.startsWith (threeQuotes q) (k ++ e ++ x) := by
  obtain ⟨r, rfl⟩ := Text.startsWith_iff.1 hk
  rw [List.append_assoc, List.append_assoc]
  exact Text.startsWith_iff.2 (List.prefix_append _ _)

theorem head_of_three {q : Char} {k : Text} (hk : Text.startsWith (threeQuotes q) k) :
    k.head? = some q := by
  obtain ⟨k, rfl⟩ := Text.startsWith_iff.1 hk
  rfl

theorem readsAs_long {q : Char} (hq : isQuote q) {k u e x : Text}
    (hk : Text.startsWith (threeQuotes q) k) (h : Takes (longString q) k u)
    (he : Surplus q e x) : ReadsAs (k ++ e) (u ++ e) x := by
  intro o
  have hs := startsWith_three_append hk e x
  have hread := h o (e ++ x)
  have hlength : o + (k ++ e).length = o + k.length + e.length := by
    rw [List.length_append, Nat.add_assoc]
  obtain ⟨k, rfl⟩ := List.head?_eq_some_iff.1 (head_of_three hk)
  have hstring : string ⟨o, q :: k ++ e ++ x⟩ =
      (longString q ⟨o, q :: k ++ e ++ x⟩).map (moreQuotes q) :=
    (string_eq hq o _).trans (if_pos hs)
  rw [hstring, hlength, List.append_assoc, hread, ← he.moreQuotes_eq]
  rfl

theorem head_of_last {q c : Char} {l r x : Text} (hx : q :: x = l ++ r)
    (hlast : l.getLast? = some c) : l.head? = some q := by
  cases l with
  | nil => cases hlast
  | cons a l => cases hx; rfl

/-- Reading a string takes a literal. -/
theorem exists_literal {q : Char} (hq : isQuote q) {o : Nat} {x v : Text} {d : Cursor}
    (h : string ⟨o, q :: x⟩ = .ok (v, d)) :
    ∃ l, q :: x = l ++ d.rest ∧ l.head? = some q ∧ l.getLast? = some q ∧
      ReadsAs l v d.rest ∧ Spelled q l v d.rest := by
  rw [string_eq hq] at h
  split at h
  · next hs =>
    rcases hlong : longString q ⟨o, q :: x⟩ with e | ⟨u, d'⟩
    · rw [hlong] at h; cases h
    · obtain ⟨k, hk, hlast, hlen, ht⟩ := takes_longString hq hs hlong
      obtain ⟨e, r, he, hsurplus⟩ := exists_surplus q d'.rest
      have hthree : Text.startsWith (threeQuotes q) k := by
        rw [hk] at hs
        rw [← List.append_nil k]
        exact startsWith_threeQuotes hs (by omega) []
      have hhead := head_of_last hk hlast
      rw [hlong] at h
      obtain ⟨o', x'⟩ := d'
      dsimp only at he hk
      subst he
      obtain ⟨rfl, rfl⟩ := Prod.mk.inj ((hsurplus.moreQuotes_eq u o').symm.trans (Except.ok.inj h))
      refine ⟨k ++ e, by rw [hk, List.append_assoc], ?_, ?_, readsAs_long hq hthree ht hsurplus,
        .inr ⟨k, u, e, rfl, rfl, hthree, ht, hsurplus⟩⟩
      · rw [List.head?_append, hhead]
        rfl
      · rw [List.getLast?_append, hlast]
        cases hlaste : e.getLast? with
        | none => rfl
        | some c => rw [hsurplus.quotes c (List.mem_of_getLast? hlaste)]; rfl
  · next hs =>
    obtain ⟨l, hl, hlast, ht⟩ := takes_shortString hq h
    have hhead := head_of_last hl hlast
    rw [hl] at hs
    exact ⟨l, hl, hhead, hlast, readsAs_short hq hhead hs ht, .inl ⟨hs, ht⟩⟩

theorem ReadsAs.spelled {q : Char} (hq : isQuote q) {l v x : Text} (hl : l.head? = some q)
    (h : ReadsAs l v x) : Spelled q l v x := by
  obtain ⟨l, rfl⟩ := List.head?_eq_some_iff.1 hl
  obtain ⟨k, hk, -, -, -, hs⟩ := exists_literal hq (h 0)
  have hk : q :: l ++ x = k ++ x := hk
  rwa [← List.append_cancel_right hk] at hs

/-! ## Literals that are spelled otherwise -/

/-- A literal, and one that stands for the same string: it is the same, or both are the same string
between quote characters in threes, with the same quotes behind the last three. -/
inductive Respelled : Text → Text → Prop
  | same (l : Text) : Respelled l l
  | long {q : Char} {k k' u : Text} (hq : isQuote q) (hk : Text.startsWith (threeQuotes q) k)
      (hk' : Text.startsWith (threeQuotes q) k')
      (h : longString q ⟨0, k⟩ = .ok (u, ⟨k.length, []⟩))
      (h' : longString q ⟨0, k'⟩ = .ok (u, ⟨k'.length, []⟩)) (e : Text) :
      Respelled (k ++ e) (k' ++ e)

/-- What is read whole is taken in front of any text. -/
theorem takes_of_longString {q : Char} (hq : isQuote q) {k u : Text}
    (hk : Text.startsWith (threeQuotes q) k)
    (h : longString q ⟨0, k⟩ = .ok (u, ⟨k.length, []⟩)) : Takes (longString q) k u := by
  obtain ⟨l, hl, -, -, ht⟩ := takes_longString hq hk h
  rw [List.append_nil] at hl
  exact hl ▸ ht

theorem Respelled.head {l k : Text} (h : Respelled l k) {q : Char} (hl : l.head? = some q) :
    k.head? = some q := by
  cases h with
  | same => exact hl
  | long hq hk hk' h h' e =>
    rw [List.head?_append, head_of_three hk] at hl
    rw [List.head?_append, head_of_three hk']
    exact hl

theorem Respelled.eq_of_not_three {l k x : Text} (h : Respelled l k) {q : Char}
    (hl : l.head? = some q) (hs : ¬ Text.startsWith (threeQuotes q) (l ++ x)) : k = l := by
  cases h with
  | same => rfl
  | @long q' k k' u hq hk hk' h h' e =>
    obtain rfl : q' = q := by
      rw [List.head?_append, head_of_three hk] at hl
      exact Option.some.inj hl
    exact absurd (startsWith_three_append hk e x) hs

/-- Three quote characters begin a literal in front of both texts or of none. -/
theorem Takes.three_iff {q : Char} (hq : isQuote q) {l v x y : Text} (hl : l.head? = some q)
    (h : Takes (shortString q) l v) (hxy : x.head? = some q ↔ y.head? = some q) :
    Text.startsWith (threeQuotes q) (l ++ x) ↔ Text.startsWith (threeQuotes q) (l ++ y) := by
  obtain ⟨l, rfl⟩ := List.head?_eq_some_iff.1 hl
  rcases l with _ | ⟨a, _ | ⟨b, l⟩⟩
  · -- one quote is no literal
    rcases isQuote_iff.1 hq with rfl | rfl <;> cases h 0 []
  · have hthree (z : Text) : Text.startsWith (threeQuotes q) (q :: a :: z) ↔
        q = a ∧ z.head? = some q := by
      rw [Text.startsWith_iff, threeQuotes]
      cases z <;> simp [List.cons_prefix_cons, eq_comm]
    simp only [List.cons_append, List.nil_append, hthree, hxy]
  · have hlen : 3 ≤ (q :: a :: b :: l).length := by simp
    exact ⟨fun h => startsWith_threeQuotes h hlen y, fun h => startsWith_threeQuotes h hlen x⟩

theorem ReadsAs.three_iff {q : Char} (hq : isQuote q) {l v x y : Text} (hl : l.head? = some q)
    (h : ReadsAs l v x) (hxy : x.head? = some q ↔ y.head? = some q) :
    Text.startsWith (threeQuotes q) (l ++ x) ↔ Text.startsWith (threeQuotes q) (l ++ y) := by
  rcases h.spelled hq hl with ⟨-, ht⟩ | ⟨k, u, e, rfl, -, hk, -, -⟩
  · exact ht.three_iff hq hl hxy
  · exact iff_of_true (startsWith_three_append hk e x) (startsWith_three_append hk e y)

/-- What a literal is spelled as is read as the same string, in front of any text that one more quote
begins if it did. -/
theorem ReadsAs.respelled {q : Char} (hq : isQuote q) {l k v x y : Text} (hl : l.head? = some q)
    (h : ReadsAs l v x) (hlk : Respelled l k) (hxy : x.head? = some q ↔ y.head? = some q) :
    ReadsAs k v y := by
  rcases h.spelled hq hl with ⟨hs, ht⟩ | ⟨k₁, u₁, e₁, rfl, rfl, hk₁, ht₁, he₁⟩
  · obtain rfl := hlk.eq_of_not_three hl hs
    exact readsAs_short hq hl (mt (ht.three_iff hq hl hxy).2 hs) ht
  · have he₁' := he₁.congr hxy
    generalize hl₁ : k₁ ++ e₁ = l at hlk
    cases hlk with
    | same => exact hl₁ ▸ readsAs_long hq hk₁ ht₁ he₁'
    | @long q' k k' u hq' hk hk' h h' e =>
      obtain rfl : q' = q := by
        rw [hl₁, List.head?_append, head_of_three hk] at hl
        exact Option.some.inj hl
      -- both ways of reading the literal take the same part of it
      have ht := takes_of_longString hq hk h
      have heq := Except.ok.inj ((ht₁ 0 e₁).symm.trans (hl₁ ▸ ht 0 e))
      have hu : u₁ = u := congrArg Prod.fst heq
      have he : e₁ = e := congrArg (fun r => r.2.rest) heq
      subst hu he
      exact readsAs_long hq hk' (takes_of_longString hq hk' h') he₁'

/-! ## The literals of a text -/

/-- What stands in front of the next character on its line, once `c` is passed. -/
def lineAfter (line : Text) (c : Char) : Text := if c = '\n' then [] else line ++ [c]

/-- What stands in front of the next character on its line, once a text is passed. -/
def lineBehind (line s : Text) : Text := s.foldl lineAfter line

/-- Collects literals; `skip` counts the characters of the literal or comment still to be passed
over. -/
def placedFrom : Nat → Text → Text → List (Text × Text)
  | _, _, [] => []
  | skip + 1, line, c :: cs => placedFrom skip (lineAfter line c) cs
  | 0, line, c :: cs =>
    if c = '#' then placedFrom (cs.takeWhile (· ≠ '\n')).length (lineAfter line c) cs
    else if isQuote c then
      match string ⟨0, c :: cs⟩ with
      | .ok (_, d) =>
        (line, (c :: cs).take d.offset) :: placedFrom (d.offset - 1) (lineAfter line c) cs
      | .error _ => []
    else placedFrom 0 (lineAfter line c) cs

/-- The string literals outside of comments, quoted keys among them, as they are written, each
behind what stands in front of it on its line. Behind a quote that begins no string none are
seen. -/
def placed (line s : Text) : List (Text × Text) := placedFrom 0 line s

theorem lineAfter_of_ne {c : Char} (hc : c ≠ '\n') (line : Text) :
    lineAfter line c = line ++ [c] := if_neg hc

theorem lineBehind_cons (line : Text) (c : Char) (s : Text) :
    lineBehind line (c :: s) = lineBehind (lineAfter line c) s := rfl

theorem lineBehind_append (line s t : Text) :
    lineBehind line (s ++ t) = lineBehind (lineBehind line s) t := List.foldl_append

theorem lineBehind_break (line s t : Text) :
    lineBehind line (s ++ '\n' :: t) = lineBehind [] t := by
  rw [lineBehind_append]
  rfl

theorem lineBehind_of_notMem {s : Text} (hs : '\n' ∉ s) (line : Text) :
    lineBehind line s = line ++ s := by
  induction s generalizing line with
  | nil => exact (List.append_nil line).symm
  | cons c s ih =>
    rw [List.mem_cons, not_or] at hs
    rw [lineBehind_cons, lineAfter_of_ne (Ne.symm hs.1), ih hs.2, List.append_assoc]
    rfl

theorem placedFrom_eq (skip : Nat) (line s : Text) :
    placedFrom skip line s = placed (lineBehind line (s.take skip)) (s.drop skip) := by
  induction s generalizing skip line with
  | nil => cases skip <;> rfl
  | cons c s ih =>
    cases skip with
    | zero => rfl
    | succ skip => exact ih skip (lineAfter line c)

/-- The end of a line, or of the text. -/
def AtBreak (x : Text) : Prop := x.head? = none ∨ x.head? = some '\n'

theorem takeWhile_line {c x : Text} (hc : '\n' ∉ c) (hx : AtBreak x) :
    (c ++ x).takeWhile (· ≠ '\n') = c := by
  rw [List.takeWhile_append_of_pos fun d hd => by
    have : d ≠ '\n' := fun h => hc (h ▸ hd)
    simpa using this]
  rcases x with _ | ⟨d, x⟩
  · simp
  · rcases hx with hx | hx <;> cases hx
    simp

theorem placed_comment {c x : Text} (hc : '\n' ∉ c) (hx : AtBreak x) (line : Text) :
    placed line ('#' :: (c ++ x)) = placed (line ++ '#' :: c) x := by
  have hstep : placed line ('#' :: (c ++ x)) =
      placedFrom ((c ++ x).takeWhile (· ≠ '\n')).length (line ++ ['#']) (c ++ x) := rfl
  rw [hstep, takeWhile_line hc hx, placedFrom_eq, List.take_left, List.drop_left,
    lineBehind_of_notMem hc, List.append_assoc]
  rfl

theorem placed_cons {c : Char} (hc : c ≠ '#') (hq : isQuote c = false) (line x : Text) :
    placed line (c :: x) = placed (lineAfter line c) x := by
  rw [placed, placedFrom, if_neg hc, hq]
  rfl

theorem placed_append {w : Text} (hw : ∀ c ∈ w, c ≠ '#' ∧ isQuote c = false) (line x : Text) :
    placed line (w ++ x) = placed (lineBehind line w) x := by
  induction w generalizing line with
  | nil => rfl
  | cons c w ih =>
    rw [List.forall_mem_cons] at hw
    rw [List.cons_append, placed_cons hw.1.1 hw.1.2, ih hw.2, lineBehind_cons]

theorem placed_literal {q : Char} (hq : isQuote q) {l v x : Text} (hl : l.head? = some q)
    (h : ReadsAs l v x) (line : Text) :
    placed line (l ++ x) = (line, l) :: placed (lineBehind line l) x := by
  obtain ⟨l, rfl⟩ := List.head?_eq_some_iff.1 hl
  have hhash : q ≠ '#' := by rintro rfl; cases hq
  have h0 : string ⟨0, q :: (l ++ x)⟩ = .ok (v, ⟨(q :: l).length, x⟩) := by
    rw [← Nat.zero_add (q :: l).length]
    exact h 0
  rw [List.cons_append, placed, placedFrom, if_neg hhash, if_pos hq, h0]
  dsimp only
  rw [placedFrom_eq, ← List.cons_append, List.take_left, List.length_cons, Nat.add_sub_cancel,
    List.take_left, List.drop_left, lineBehind_cons]

theorem quoted_of_mem_placedFrom {skip : Nat} {line s : Text} {p : Text × Text}
    (hp : p ∈ placedFrom skip line s) :
    ∃ q, isQuote q ∧ p.2.head? = some q ∧ p.2.getLast? = some q := by
  induction s generalizing skip line with
  | nil => cases skip <;> cases hp
  | cons c s ih =>
    cases skip with
    | succ skip => exact ih hp
    | zero =>
      rw [placedFrom] at hp
      split at hp
      · exact ih hp
      · split at hp
        · next hq =>
          rcases hs : string ⟨0, c :: s⟩ with e | ⟨v, d⟩
          · rw [hs] at hp
            cases hp
          · obtain ⟨l, hl, hhead, hlast, hreads, -⟩ := exists_literal hq hs
            have hoffset : d.offset = l.length := by
              have heq := Except.ok.inj ((hl ▸ hs).symm.trans (hreads 0))
              rw [show d = ⟨0 + l.length, d.rest⟩ from congrArg Prod.snd heq]
              exact Nat.zero_add _
            rw [hs] at hp
            rcases List.mem_cons.1 hp with rfl | hp
            · exact ⟨c, hq, by rw [hl, hoffset, List.take_left]; exact ⟨hhead, hlast⟩⟩
            · exact ih hp
        · exact ih hp

end Toml

end ConfigCare
