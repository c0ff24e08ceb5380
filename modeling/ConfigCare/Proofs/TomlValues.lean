import Mathlib.Data.List.DropRight
import ConfigCare.Proofs.CommentRouting
import ConfigCare.Proofs.TomlLayouts

/-! Keys, comments and values are read alike from two texts that differ in their layout only. -/

namespace ConfigCare.Toml

variable {α : Type}

/-- Two cursors that have come from two others, with as much again in front of them at most. -/
structure Leads (c d c' d' : Cursor) : Prop where
  relaid : Relaid c'.rest d'.rest
  left : c'.rest.length ≤ c.rest.length
  right : d'.rest.length ≤ d.rest.length

theorem skipWhile_rest (p : Char → Bool) (c : Cursor) : (c.skipWhile p).rest = c.rest.dropWhile p :=
  Cursor.skipFrom_rest p c.offset c.rest

theorem length_dropWhile_le (p : Char → Bool) (x : Text) : (x.dropWhile p).length ≤ x.length :=
  (List.dropWhile_suffix p).length_le

theorem Leads.spaces {c d c' d' : Cursor} (h : Leads c d c' d') :
    Leads c d (c'.skipWhile isSpace) (d'.skipWhile isSpace) where
  relaid := by rw [skipWhile_rest, skipWhile_rest]; exact h.relaid.dropSpaces
  left := by rw [skipWhile_rest]; exact (length_dropWhile_le _ _).trans h.left
  right := by rw [skipWhile_rest]; exact (length_dropWhile_le _ _).trans h.right

theorem Leads.refl {c d : Cursor} (h : Relaid c.rest d.rest) : Leads c d c d := ⟨h, le_rfl, le_rfl⟩

theorem Leads.trans {c d c₁ d₁ c₂ d₂ : Cursor} (h : Leads c d c₁ d₁) (h' : Leads c₁ d₁ c₂ d₂) :
    Leads c d c₂ d₂ :=
  ⟨h'.relaid, h'.left.trans h.left, h'.right.trans h.right⟩

/-- A step on a text is matched by a step on the text laid out otherwise, if both texts are short
enough. -/
def Simulates (m n : Nat) (f g : Step α) : Prop :=
  ∀ c d v c', Relaid c.rest d.rest → c.rest.length < m → d.rest.length < n → f c = .ok (v, c') →
    ∃ d', g d = .ok (v, d') ∧ Leads c d c' d'

theorem Relaid.takeWhile {p : Char → Bool} (hp : ∀ c, p c → Solid c) {x y : Text} (h : Relaid x y) :
    x.takeWhile p = y.takeWhile p ∧ Relaid (x.dropWhile p) (y.dropWhile p) := by
  induction x generalizing y with
  | nil =>
    cases y with
    | nil => exact ⟨rfl, h⟩
    | cons d y =>
      by_cases hd : p d
      · obtain ⟨x, hx, -⟩ := h.right (hp d hd)
        cases hx
      · simpa [hd] using h
  | cons c x ih =>
    by_cases hc : p c
    · obtain ⟨y, rfl, h'⟩ := h.left (hp c hc)
      simpa [hc] using ih h'
    · cases y with
      | nil => simpa [hc] using h
      | cons d y =>
        by_cases hd : p d
        · obtain ⟨x, hx, -⟩ := h.right (hp d hd)
          cases hx
          exact absurd hd hc
        · simpa [hc, hd] using h

theorem isWordChar_of_isBareKeyChar {c : Char} (h : isBareKeyChar c) : isWordChar c := by
  simp only [isBareKeyChar, Bool.or_eq_true, decide_eq_true_eq] at h
  rcases h with ((h | h) | rfl) | rfl
  · simp [isWordChar, h]
  · exact isWordChar_of_digit h
  · decide
  · decide

theorem drop_takeWhile (p : Char → Bool) (x : Text) :
    x.drop (x.takeWhile p).length = x.dropWhile p := by
  induction x with
  | nil => rfl
  | cons c x ih => by_cases hc : p c <;> simp [hc, ih]

theorem keyPart_quote {q : Char} (hq : isQuote q) (o : Nat) (x : Text) :
    keyPart ⟨o, q :: x⟩ = shortString q ⟨o, q :: x⟩ := by
  rcases isQuote_iff.1 hq with rfl | rfl <;> rfl

theorem keyPart_bare {a : Char} (ha : isBareKeyChar a) (o : Nat) (x : Text) :
    keyPart ⟨o, a :: x⟩ = .ok ((a :: x).takeWhile isBareKeyChar,
      Cursor.drop ((a :: x).takeWhile isBareKeyChar).length ⟨o, a :: x⟩) :=
  if_pos ha

theorem isQuote_of_keyPart {a : Char} (ha : ¬ isBareKeyChar a) {o : Nat} {x v : Text} {c : Cursor}
    (h : keyPart ⟨o, a :: x⟩ = .ok (v, c)) : isQuote a := by
  unfold keyPart at h
  dsimp only at h
  rw [if_neg ha] at h
  split at h
  · next hq => exact isQuote_iff.2 (.inr hq)
  · split at h
    · next hq => exact isQuote_iff.2 (.inl hq)
    · cases h

/-- Of three quote characters, two are read as an empty string. -/
theorem shortString_three {q : Char} (hq : isQuote q) {o : Nat} {x v : Text} {c : Cursor}
    (hx : Text.startsWith (threeQuotes q) x) (h : shortString q ⟨o, x⟩ = .ok (v, c)) :
    c.rest.head? = some q := by
  obtain ⟨x, rfl⟩ := Text.startsWith_iff.1 hx
  rcases isQuote_iff.1 hq with rfl | rfl <;>
    · cases h
      rfl

/-- Behind a part of a key a quote character may stand, where a literal begins with three. -/
theorem keyPart_relaid {c d c' : Cursor} {v : Text} (h : Relaid c.rest d.rest)
    (hk : keyPart c = .ok (v, c')) :
    (∃ d', keyPart d = .ok (v, d') ∧ Leads c d c' d') ∨
      ∃ q, isQuote q ∧ c'.rest.head? = some q := by
  obtain ⟨o, x⟩ := c
  obtain ⟨p, y⟩ := d
  cases x with
  | nil => cases hk
  | cons a x =>
    by_cases ha : isBareKeyChar a
    · have hsolid (c : Char) (hc : isBareKeyChar c) : Solid c :=
        solid_of_isWordChar (isWordChar_of_isBareKeyChar hc)
      obtain ⟨htake, hdrop⟩ := Relaid.takeWhile hsolid h
      obtain ⟨y, rfl, -⟩ := h.left (hsolid a ha)
      rw [keyPart_bare ha] at hk
      cases hk
      refine .inl ⟨_, by rw [keyPart_bare ha, ← htake], ?_, (List.drop_suffix _ _).length_le,
        (List.drop_suffix _ _).length_le⟩
      · simp only [Cursor.drop, drop_takeWhile]
        rw [htake, drop_takeWhile]
        exact hdrop
    · have hq := isQuote_of_keyPart ha hk
      rw [keyPart_quote hq] at hk
      by_cases hthree : Text.startsWith (threeQuotes a) (a :: x)
      · exact .inr ⟨a, hq, shortString_three hq hthree hk⟩
      · have hread : string ⟨o, a :: x⟩ = .ok (v, c') := by
          rw [string_eq hq, if_neg hthree, hk]
        obtain ⟨l, k, y', hx, rfl, hl, hlk, hrx, hry, h'⟩ := h.literal_left hq hread
        rw [hx] at hthree
        obtain rfl := hlk.eq_of_not_three hl hthree
        have hnot : ¬ Text.startsWith (threeQuotes a) (k ++ y') :=
          mt (hrx.three_iff hq hl (h'.head_quote hq)).2 hthree
        obtain ⟨l, rfl⟩ := List.head?_eq_some_iff.1 hl
        refine .inl ⟨⟨p + (a :: l).length, y'⟩, ?_, h', ?_, ?_⟩
        · rw [List.cons_append, keyPart_quote hq, ← hry p, List.cons_append, string_eq hq]
          exact (if_neg hnot).symm
        · exact (List.IsSuffix.length_le ⟨_, hx.symm⟩)
        · exact (List.suffix_append _ _).length_le

/-- What is read of a key behind its first parts. -/
def keyRest (done : Key) (n : Nat) : Step Key := fun c =>
  match c with
  | ⟨o, '.' :: cs⟩ => keyFrom done n (Cursor.skipWhile isSpace ⟨o + 1, cs⟩)
  | c => .ok (done.reverse, c)

theorem keyFrom_succ {n : Nat} {done : Key} {c c₁ : Cursor} {part : Text}
    (h : keyPart c = .ok (part, c₁)) :
    keyFrom done (n + 1) c = keyRest (part :: done) n (c₁.skipWhile isSpace) := by
  rw [keyFrom, h]
  rfl

theorem keyRest_of_ne {done : Key} {n : Nat} {c : Cursor} (hc : c.rest.head? ≠ some '.') :
    keyRest done n c = .ok (done.reverse, c) := by
  unfold keyRest
  split
  · exact absurd rfl hc
  · rfl

theorem keyFrom_relaid {n n' : Nat} {done : Key} {c d c' : Cursor} {k : Key}
    (h : Relaid c.rest d.rest) (hd : d.rest.length < n') (hk : keyFrom done n c = .ok (k, c')) :
    (∃ d', keyFrom done n' d = .ok (k, d') ∧ Leads c d c' d') ∨
      ∃ q, isQuote q ∧ c'.rest.head? = some q := by
  induction n generalizing n' done c d with
  | zero => cases hk
  | succ n ih =>
    cases n' with
    | zero => exact absurd hd (Nat.not_lt_zero _)
    | succ n' =>
      rcases hpart : keyPart c with e | ⟨part, c₁⟩
      · rw [keyFrom, hpart] at hk; cases hk
      rw [keyFrom_succ hpart] at hk
      rcases keyPart_relaid h hpart with ⟨d₁, hpart', h₁⟩ | ⟨q, hq, hhead⟩
      · rw [keyFrom_succ hpart']
        replace h₁ := h₁.spaces
        generalize c₁.skipWhile isSpace = c₂ at hk h₁
        generalize d₁.skipWhile isSpace = d₂ at h₁
        have hdot : Solid '.' := ⟨by decide, by decide⟩
        by_cases hhead : c₂.rest.head? = some '.'
        · obtain ⟨o, x⟩ := c₂
          obtain ⟨p, y⟩ := d₂
          obtain ⟨x, rfl⟩ := List.head?_eq_some_iff.1 hhead
          obtain ⟨y, rfl, h₂⟩ := h₁.relaid.left hdot
          have hstep : Leads ⟨o, '.' :: x⟩ ⟨p, '.' :: y⟩ ⟨o + 1, x⟩ ⟨p + 1, y⟩ :=
            ⟨h₂, Nat.le_succ _, Nat.le_succ _⟩
          have hlt : (Cursor.skipWhile isSpace ⟨p + 1, y⟩).rest.length < n' := by
            have := h₁.right
            have := length_dropWhile_le isSpace y
            rw [skipWhile_rest]
            simp only [List.length_cons] at *
            omega
          refine (ih hstep.spaces.relaid hlt hk).imp_left ?_
          rintro ⟨d', hd', h₃⟩
          exact ⟨d', hd', h₁.trans (hstep.spaces.trans h₃)⟩
        · have hhead' : d₂.rest.head? ≠ some '.' :=
            fun h => hhead ((h₁.relaid.head (by decide) (by decide)).2 h)
          rw [keyRest_of_ne hhead] at hk
          rw [keyRest_of_ne hhead']
          cases hk
          exact .inl ⟨d₂, rfl, h₁⟩
      · have hstay : (c₁.skipWhile isSpace).rest.head? = some q := by
          obtain ⟨r, hr⟩ := List.head?_eq_some_iff.1 hhead
          rw [skipWhile_rest, hr, List.dropWhile_cons_of_neg (by simp [isSpace_of_isQuote hq])]
          rfl
        have hne : (c₁.skipWhile isSpace).rest.head? ≠ some '.' := by
          rw [hstay]; rintro ⟨⟩; cases hq
        rw [keyRest_of_ne hne] at hk
        cases hk
        exact .inr ⟨q, hq, hstay⟩

/-- No space is left behind a key. -/
theorem keyFrom_spaces {n : Nat} {done : Key} {c c' : Cursor} {k : Key}
    (hk : keyFrom done n c = .ok (k, c')) : c'.rest.dropWhile isSpace = c'.rest := by
  induction n generalizing done c with
  | zero => cases hk
  | succ n ih =>
    rcases hpart : keyPart c with e | ⟨part, c₁⟩
    · rw [keyFrom, hpart] at hk; cases hk
    · rw [keyFrom_succ hpart] at hk
      unfold keyRest at hk
      split at hk
      · exact ih hk
      · cases hk
        rw [skipWhile_rest, List.dropWhile_idempotent]

/-- A step that reads nothing from white space that TOML does not know. -/
def RefusesStray (f : Step α) : Prop := ∀ c r, BeginsStray c.rest → f c ≠ .ok r

theorem Leads.cons {a : Char} {o p : Nat} {x y : Text} (h : Relaid x y) :
    Leads ⟨o, a :: x⟩ ⟨p, a :: y⟩ ⟨o + 1, x⟩ ⟨p + 1, y⟩ :=
  ⟨h, Nat.le_succ _, Nat.le_succ _⟩

variable {m n : Nat} {f g : Step Data}

theorem pair_relaid (hf : RefusesStray f) (hfg : Simulates m n f g) :
    Simulates m n (pair m f) (pair n g) := by
  intro c d r c' h hc hd hpair
  unfold pair at hpair
  rcases hkey : key m c with e | ⟨k, c₁⟩
  · rw [hkey] at hpair; cases hpair
  rw [hkey] at hpair
  dsimp only at hpair
  split at hpair
  · next x hx =>
    rcases keyFrom_relaid h hd hkey with ⟨d₁, hkey', h₁⟩ | ⟨q, hq, hhead⟩
    · obtain ⟨y, hy, hvalue⟩ := (hx ▸ h₁.relaid).equals_left
      rw [keyFrom_spaces hkey'] at hy
      obtain ⟨⟨v, c₂⟩, hread, heq⟩ := Json.exists_of_map_ok hpair
      cases heq
      rcases hvalue with hvalue | hstray
      · have hleft := h₁.left
        have hright := h₁.right
        rw [hx, List.length_cons] at hleft
        rw [hy, List.length_cons] at hright
        have hx' := length_dropWhile_le isSpace x
        have hy' := length_dropWhile_le isSpace y
        obtain ⟨d', hd', h₂⟩ := hfg _ (Cursor.skipWhile isSpace ⟨d₁.offset + 1, y⟩) _ _
          (by rw [skipWhile_rest, skipWhile_rest]; exact hvalue)
          (by rw [skipWhile_rest]; dsimp only; omega) (by rw [skipWhile_rest]; dsimp only; omega)
          hread
        refine ⟨d', ?_, h₂.relaid, h₂.left.trans ?_, h₂.right.trans ?_⟩
        · unfold pair
          rw [key, hkey']
          dsimp only
          rw [hy]
          exact congrArg (Except.map fun r => ((k, r.1), r.2)) hd'
        · rw [skipWhile_rest]; dsimp only; omega
        · rw [skipWhile_rest]; dsimp only; omega
      · exact absurd hread (hf _ _ (by rw [skipWhile_rest]; exact hstray))
    · rw [hx] at hhead
      cases hhead
      cases hq
  · cases hpair

/-! ## Comments and gaps -/

theorem skipComment_hash {a x : Text} (ha : '\n' ∉ a) (hx : AtBreak x) (o : Nat) :
    skipComment ⟨o, '#' :: (a ++ x)⟩ =
      match forbiddenFrom false (o + 1) a with
      | some (b, p) => fail (.invalid b) p
      | none => .ok ⟨o + (a.length + 1), x⟩ := by
  have hstep : skipComment ⟨o, '#' :: (a ++ x)⟩ =
      match forbiddenFrom false (o + 1) ((a ++ x).takeWhile (· ≠ '\n')) with
      | some (b, p) => fail (.invalid b) p
      | none => .ok (Cursor.drop (((a ++ x).takeWhile (· ≠ '\n')).length + 1)
          ⟨o, '#' :: (a ++ x)⟩) := rfl
  rw [hstep, takeWhile_line ha hx, Cursor.drop, List.drop_succ_cons, List.drop_left]

theorem skipComment_of_ne {o : Nat} {x : Text} (hx : x.head? ≠ some '#') :
    skipComment ⟨o, x⟩ = .ok ⟨o, x⟩ := by
  unfold skipComment
  split
  · next heq => exact absurd (congrArg List.head? heq) hx
  · rfl

theorem skipComment_relaid {c d c' : Cursor} (h : Relaid c.rest d.rest)
    (hc : skipComment c = .ok c') :
    ∃ d', skipComment d = .ok d' ∧ Leads c d c' d' ∧
      (c.rest.head? = some '#' →
        c'.rest.length < c.rest.length ∧ d'.rest.length < d.rest.length) := by
  obtain ⟨o, x⟩ := c
  obtain ⟨p, y⟩ := d
  by_cases hhead : x.head? = some '#'
  · obtain ⟨x, rfl⟩ := List.head?_eq_some_iff.1 hhead
    obtain ⟨a, b, x, y, rfl, rfl, hab, hx, hy, h'⟩ := h.comment_left
    rw [skipComment_hash hab.left hx] at hc
    rcases ha : forbiddenFrom false (o + 1) a with _ | e
    · rw [ha] at hc
      cases hc
      have hb : forbiddenFrom false (p + 1) b = none :=
        forbiddenFrom_eq_none_iff.2 (hab.allowed (forbiddenFrom_eq_none_iff.1 ha))
      refine ⟨⟨p + (b.length + 1), y⟩, by rw [skipComment_hash hab.right hy, hb], ⟨h', ?_, ?_⟩, ?_⟩
      · simp only [List.length_cons, List.length_append]; omega
      · simp only [List.length_cons, List.length_append]; omega
      · simp only [List.length_cons, List.length_append]; omega
    · rw [ha] at hc
      cases hc
  · have hhead' : y.head? ≠ some '#' := fun hy => hhead ((h.head (by decide) (by decide)).2 hy)
    rw [skipComment_of_ne hhead] at hc
    cases hc
    exact ⟨_, skipComment_of_ne hhead', .refl h, fun h => absurd h hhead⟩

theorem skipWhile_eq (p : Char → Bool) (c : Cursor) :
    c.skipWhile p = ⟨c.offset + (c.rest.takeWhile p).length, c.rest.dropWhile p⟩ := by
  obtain ⟨o, x⟩ := c
  unfold Cursor.skipWhile
  induction x generalizing o with
  | nil => rfl
  | cons c x ih =>
    by_cases hc : p c
    · simp only [Cursor.skipFrom, hc, if_true, List.takeWhile_cons_of_pos, List.dropWhile_cons_of_pos,
        List.length_cons] at ih ⊢
      rw [ih]
      congr 1
      omega
    · simp [Cursor.skipFrom, hc]

theorem skipComment_offset {c d : Cursor} (hc : c.rest.head? = some '#')
    (h : skipComment c = .ok d) : c.offset < d.offset := by
  obtain ⟨o, x⟩ := c
  obtain ⟨x, rfl⟩ := List.head?_eq_some_iff.1 hc
  unfold skipComment at h
  dsimp only at h
  split at h
  · split at h
    · cases h
    · cases h
      simp only [Cursor.drop]
      omega
  · next hne => exact absurd rfl (hne x)

/-- Gaps that have been passed over are not passed over again. -/
theorem skipGaps_settled {k : Nat} {c : Cursor} (hgap : c.skipWhile isSpaceOrBreak = c)
    (hhash : c.rest.head? ≠ some '#') : skipGaps k c = .ok c := by
  cases k with
  | zero => rfl
  | succ k => rw [skipGaps, hgap, skipComment_of_ne hhash]; simp

theorem skipWhile_skipWhile (p : Char → Bool) (c : Cursor) :
    (c.skipWhile p).skipWhile p = c.skipWhile p := by
  have hnone : (c.rest.dropWhile p).takeWhile p = [] := by
    induction c.rest with
    | nil => rfl
    | cons a x ih => by_cases ha : p a <;> simp [ha, ih]
  rw [skipWhile_eq p (c.skipWhile p), skipWhile_eq p c, List.dropWhile_idempotent, hnone]
  rfl

theorem skipGaps_succ (k : Nat) (c : Cursor) :
    skipGaps (k + 1) c =
      if (c.skipWhile isSpaceOrBreak).rest.head? = some '#' then
        match skipComment (c.skipWhile isSpaceOrBreak) with
        | .error e => .error e
        | .ok d => skipGaps k d
      else .ok (c.skipWhile isSpaceOrBreak) := by
  rw [skipGaps]
  have hle : c.offset ≤ (c.skipWhile isSpaceOrBreak).offset := by
    rw [skipWhile_eq]; exact Nat.le_add_right _ _
  have hsettled := skipWhile_skipWhile isSpaceOrBreak c
  generalize c.skipWhile isSpaceOrBreak = e at hle hsettled
  by_cases hhash : e.rest.head? = some '#'
  · rw [if_pos hhash]
    rcases hd : skipComment e with e' | d
    · rfl
    · have hlt := skipComment_offset hhash hd
      dsimp only
      rw [if_neg (by omega)]
  · rw [if_neg hhash, skipComment_of_ne hhash]
    dsimp only
    split
    · rfl
    · exact skipGaps_settled hsettled hhash

theorem skipGaps_relaid {k l : Nat} {c d c' : Cursor} (h : Relaid c.rest d.rest)
    (hk : c.rest.length < k) (hl : d.rest.length < l) (hc : skipGaps k c = .ok c') :
    (∃ d', skipGaps l d = .ok d' ∧ Leads c d c' d') ∨ BeginsStray c'.rest := by
  induction k generalizing l c d with
  | zero => exact absurd hk (Nat.not_lt_zero _)
  | succ k ih =>
    cases l with
    | zero => exact absurd hl (Nat.not_lt_zero _)
    | succ l =>
      have hx := length_dropWhile_le isSpaceOrBreak c.rest
      have hy := length_dropWhile_le isSpaceOrBreak d.rest
      rw [← skipWhile_rest] at hx hy
      rw [skipGaps_succ] at hc ⊢
      have hgap := h.dropGaps
      rw [← skipWhile_rest, ← skipWhile_rest] at hgap
      rcases hgap with hgap | ⟨a, x, ha, hstray⟩
      · have hstep : Leads c d (c.skipWhile isSpaceOrBreak) (d.skipWhile isSpaceOrBreak) :=
          ⟨hgap, hx, hy⟩
        have hheads := hgap.head (by decide : Text.isBlank '#' = false) (by decide)
        split at hc
        · next hhash =>
          rw [if_pos (hheads.1 hhash)]
          split at hc
          · cases hc
          · next c₁ hc₁ =>
            obtain ⟨d₁, hd₁, h₁, hlt⟩ := skipComment_relaid hgap hc₁
            obtain ⟨hltc, hltd⟩ := hlt hhash
            rw [hd₁]
            dsimp only
            refine (ih (l := l) h₁.relaid (by omega) (by omega) hc).imp_left ?_
            rintro ⟨d', hd', h₂⟩
            exact ⟨d', hd', hstep.trans (h₁.trans h₂)⟩
        · next hhash =>
          rw [if_neg fun h => hhash (hheads.2 h)]
          cases hc
          exact .inl ⟨_, rfl, hstep⟩
      · have hhash : (c.skipWhile isSpaceOrBreak).rest.head? ≠ some '#' := by
          rw [ha]; rintro ⟨⟩; cases hstray
        rw [if_neg hhash] at hc
        cases hc
        exact .inr ⟨a, x, ha, hstray⟩

/-! ## Values -/

theorem plainValue_relaid {c d c' : Cursor} {v : Data} (h : Relaid c.rest d.rest)
    (hc : plainValue c = .ok (v, c')) : ∃ d', plainValue d = .ok (v, d') ∧ Leads c d c' d' := by
  obtain ⟨o, x⟩ := c
  obtain ⟨p, y⟩ := d
  obtain ⟨t, z, z', rfl, rfl, hz, hz', hrelaid⟩ := Relaid.words h
  obtain ⟨k, r, rfl, hr, hread⟩ := plainValue_apart hz hc
  obtain ⟨p', hd⟩ := hread z' hz' p
  refine ⟨⟨p', r ++ z'⟩, hd, ?_, ?_, ?_⟩
  · rw [hr]
    exact hrelaid k r rfl
  · rw [hr]
    simp only [List.length_append]
    omega
  · simp only [List.length_append]
    omega

theorem string_relaid {q : Char} (hq : isQuote q) {o p : Nat} {x y v : Text} {c' : Cursor}
    (h : Relaid (q :: x) y) (hc : string ⟨o, q :: x⟩ = .ok (v, c')) :
    ∃ d', string ⟨p, y⟩ = .ok (v, d') ∧ Leads ⟨o, q :: x⟩ ⟨p, y⟩ c' d' := by
  obtain ⟨l, k, y', hx, rfl, -, -, -, hry, h'⟩ := h.literal_left hq hc
  exact ⟨_, hry p, h', List.IsSuffix.length_le ⟨_, hx.symm⟩, (List.suffix_append _ _).length_le⟩

theorem endsWord_of_stray {x : Text} (h : BeginsStray x) : EndsWord x := by
  obtain ⟨a, r, rfl, ha⟩ := h
  intro c hc
  cases hc
  by_contra hword
  have hsolid := solid_of_isWordChar (by simpa using hword)
  simp [isStray, hsolid.visible] at ha

theorem plainValue_stray : RefusesStray plainValue := by
  intro c r h hc
  have hapart : Apart c.rest := by
    refine ⟨endsWord_of_stray h, fun y hy => ?_⟩
    obtain ⟨a, x, hx, ha⟩ := h
    rw [hy] at hx
    cases hx
    cases ha
  have heq := plainValue_append hapart c.offset []
  have hnil : plainValue ⟨c.offset, []⟩ = fail .value c.offset := rfl
  rw [hnil, List.nil_append, hc] at heq
  cases heq

theorem arrayFrom_eq_ok_iff {k l : Nat} {f : Step Data} {done vs : List Data} {c c' : Cursor} :
    arrayFrom k f (l + 1) done c = .ok (vs, c') ↔
      ∃ v c₁ o a x, f c = .ok (v, c₁) ∧ skipGaps k c₁ = .ok ⟨o, a :: x⟩ ∧
        (a = ']' ∧ (vs, c') = ((v :: done).reverse, ⟨o + 1, x⟩) ∨
          a = ',' ∧ ∃ c₂, skipGaps k ⟨o + 1, x⟩ = .ok c₂ ∧
            ((∃ p y, c₂ = ⟨p, ']' :: y⟩ ∧ (vs, c') = ((v :: done).reverse, ⟨p + 1, y⟩)) ∨
              c₂.rest.head? ≠ some ']' ∧ arrayFrom k f l (v :: done) c₂ = .ok (vs, c'))) := by
  rw [arrayFrom]
  constructor
  · intro h
    split at h
    · cases h
    · next v c₁ hf =>
      split at h
      · cases h
      · next o x hgaps => cases h; exact ⟨v, c₁, o, ']', x, hf, hgaps, .inl ⟨rfl, rfl⟩⟩
      · next o x hgaps =>
        refine ⟨v, c₁, o, ',', x, hf, hgaps, .inr ⟨rfl, ?_⟩⟩
        split at h
        · cases h
        · next p y hgaps' => cases h; exact ⟨_, hgaps', .inl ⟨p, y, rfl, rfl⟩⟩
        · next c₂ hne hgaps' =>
          refine ⟨c₂, hgaps', .inr ⟨fun hhead => ?_, h⟩⟩
          obtain ⟨y, hy⟩ := List.head?_eq_some_iff.1 hhead
          exact hne c₂.offset y (by rw [← hy])
      · cases h
  · rintro ⟨v, c₁, o, a, x, hf, hgaps, ⟨rfl, heq⟩ | ⟨rfl, c₂, hgaps', ⟨p, y, rfl, heq⟩ | ⟨hne, h⟩⟩⟩
    · simp only [hf, hgaps, heq]
    · simp only [hf, hgaps, hgaps', heq]
    · simp only [hf, hgaps, hgaps']
      rw [← h]
      split
      · next heq => cases heq
      · next heq => cases heq; exact absurd rfl hne
      · next heq => cases heq; rfl

theorem arrayFrom_stray (hf : RefusesStray f) {k l : Nat} {done : List Data} :
    RefusesStray (arrayFrom k f l done) := by
  rintro c ⟨vs, c'⟩ h hc
  cases l with
  | zero => cases hc
  | succ l =>
    obtain ⟨v, c₁, o, a, x, hread, -⟩ := arrayFrom_eq_ok_iff.1 hc
    exact hf _ _ h hread

theorem not_beginsStray {a : Char} (ha : Solid a) (x : Text) : ¬ BeginsStray (a :: x) := by
  rintro ⟨b, r, heq, hb⟩
  cases heq
  simp [isStray, ha.visible] at hb

theorem solid_close : Solid ']' := ⟨by decide, by decide⟩

theorem solid_comma : Solid ',' := ⟨by decide, by decide⟩

theorem arrayFrom_relaid (hf : RefusesStray f) (hfg : Simulates m n f g) {k l : Nat}
    {done vs : List Data} {c d c' : Cursor} (h : Relaid c.rest d.rest) (hc : c.rest.length < m)
    (hd : d.rest.length < n) (hl : d.rest.length < l)
    (hread : arrayFrom m f k done c = .ok (vs, c')) :
    ∃ d', arrayFrom n g l done d = .ok (vs, d') ∧ Leads c d c' d' := by
  induction k generalizing l done c d with
  | zero => cases hread
  | succ k ih =>
    cases l with
    | zero => exact absurd hl (Nat.not_lt_zero _)
    | succ l =>
      obtain ⟨v, c₁, o, a, x, hitem, hgaps, hrest⟩ := arrayFrom_eq_ok_iff.1 hread
      have ha : Solid a := by
        rcases hrest with ⟨rfl, -⟩ | ⟨rfl, -⟩
        · exact solid_close
        · exact solid_comma
      obtain ⟨d₁, hitem', h₁⟩ := hfg _ _ _ _ h hc hd hitem
      have hlen₁ := h₁.left
      have hlen₁' := h₁.right
      rcases skipGaps_relaid (l := n) h₁.relaid (by omega) (by omega) hgaps with
        ⟨⟨p, y⟩, hgaps', h₂⟩ | hstray
      swap
      · exact absurd hstray (not_beginsStray ha x)
      obtain ⟨y, rfl, h₃⟩ := h₂.relaid.left ha
      have hlen₂ := h₂.left
      have hlen₂' := h₂.right
      simp only [List.length_cons] at hlen₂ hlen₂'
      have hstep : Leads c d ⟨o + 1, x⟩ ⟨p + 1, y⟩ := h₁.trans (h₂.trans (.cons h₃))
      rcases hrest with ⟨rfl, heq⟩ | ⟨rfl, c₂, hgaps₂, hnext⟩
      · cases heq
        exact ⟨_, arrayFrom_eq_ok_iff.2 ⟨v, d₁, p, ']', y, hitem', hgaps', .inl ⟨rfl, rfl⟩⟩, hstep⟩
      · rcases skipGaps_relaid (l := n) (d := ⟨p + 1, y⟩) h₃ (by dsimp only; omega)
          (by dsimp only; omega) hgaps₂ with ⟨d₂, hgaps₂', h₄⟩ | hstray
        swap
        · rcases hnext with ⟨o', x', rfl, -⟩ | ⟨-, hnext⟩
          · exact absurd hstray (not_beginsStray solid_close x')
          · exact absurd hnext (arrayFrom_stray hf _ _ hstray)
        have hlen₃ := h₄.left
        have hlen₃' := h₄.right
        dsimp only at hlen₃ hlen₃'
        rcases hnext with ⟨o', x', rfl, heq⟩ | ⟨hne, hnext⟩
        · obtain ⟨p', y'⟩ := d₂
          obtain ⟨y', rfl, h₅⟩ := h₄.relaid.left solid_close
          cases heq
          refine ⟨_, arrayFrom_eq_ok_iff.2 ⟨v, d₁, p, ',', y, hitem', hgaps', .inr ⟨rfl, _, hgaps₂',
            .inl ⟨p', y', rfl, rfl⟩⟩⟩, hstep.trans (h₄.trans (.cons h₅))⟩
        · have hne' : d₂.rest.head? ≠ some ']' := fun hhead =>
            hne ((h₄.relaid.head (by decide) (by decide)).2 hhead)
          obtain ⟨d', hd', h₅⟩ := ih (l := l) h₄.relaid (by omega) (by omega) (by omega) hnext
          exact ⟨d', arrayFrom_eq_ok_iff.2 ⟨v, d₁, p, ',', y, hitem', hgaps', .inr ⟨rfl, _, hgaps₂',
            .inr ⟨hne', hd'⟩⟩⟩, hstep.trans (h₄.trans h₅)⟩

theorem array_eq_ok_iff {k o : Nat} {a : Char} {x : Text} {v : Data} {c' : Cursor} :
    array k f ⟨o, a :: x⟩ = .ok (v, c') ↔
      ∃ c₁, skipGaps k ⟨o + 1, x⟩ = .ok c₁ ∧
        ((∃ p y, c₁ = ⟨p, ']' :: y⟩ ∧ (v, c') = (.list [], ⟨p + 1, y⟩)) ∨
          c₁.rest.head? ≠ some ']' ∧
            ∃ vs, arrayFrom k f k [] c₁ = .ok (vs, c') ∧ v = .list vs) := by
  have hdrop : Cursor.drop 1 ⟨o, a :: x⟩ = ⟨o + 1, x⟩ := rfl
  unfold array
  rw [hdrop]
  constructor
  · intro h
    split at h
    · cases h
    · next p y hgaps => cases h; exact ⟨_, hgaps, .inl ⟨p, y, rfl, rfl⟩⟩
    · next c₁ hne hgaps =>
      obtain ⟨⟨vs, c₂⟩, hread, heq⟩ := Json.exists_of_map_ok h
      cases heq
      refine ⟨c₁, hgaps, .inr ⟨fun hhead => ?_, vs, hread, rfl⟩⟩
      obtain ⟨y, hy⟩ := List.head?_eq_some_iff.1 hhead
      exact hne c₁.offset y (by rw [← hy])
  · rintro ⟨c₁, hgaps, ⟨p, y, rfl, heq⟩ | ⟨hne, vs, hread, rfl⟩⟩
    · simp only [hgaps, heq]
    · rw [hgaps]
      split
      · next heq => cases heq
      · next heq => cases heq; exact absurd rfl hne
      · next heq => cases heq; rw [hread]; rfl

theorem array_relaid (hf : RefusesStray f) (hfg : Simulates m n f g) {o p : Nat} {x y : Text}
    {v : Data} {c' : Cursor} (h : Relaid x y) (hx : x.length < m) (hy : y.length < n)
    (hread : array m f ⟨o, '[' :: x⟩ = .ok (v, c')) :
    ∃ d', array n g ⟨p, '[' :: y⟩ = .ok (v, d') ∧ Leads ⟨o, '[' :: x⟩ ⟨p, '[' :: y⟩ c' d' := by
  obtain ⟨c₁, hgaps, hrest⟩ := array_eq_ok_iff.1 hread
  rcases skipGaps_relaid (d := ⟨p + 1, y⟩) h hx hy hgaps with ⟨d₁, hgaps', h₁⟩ | hstray
  · have hstep : Leads ⟨o, '[' :: x⟩ ⟨p, '[' :: y⟩ c₁ d₁ := (Leads.cons h).trans h₁
    have hlen := h₁.left
    have hlen' := h₁.right
    dsimp only at hlen hlen'
    rcases hrest with ⟨p', y', rfl, heq⟩ | ⟨hne, vs, hitems, rfl⟩
    · obtain ⟨p', y'⟩ := d₁
      obtain ⟨y', rfl, h₂⟩ := h₁.relaid.left solid_close
      cases heq
      exact ⟨_, array_eq_ok_iff.2 ⟨_, hgaps', .inl ⟨p', y', rfl, rfl⟩⟩, hstep.trans (.cons h₂)⟩
    · have hne' : d₁.rest.head? ≠ some ']' := fun hhead =>
        hne ((h₁.relaid.head (by decide) (by decide)).2 hhead)
      obtain ⟨d', hd', h₂⟩ := arrayFrom_relaid hf hfg (l := n) h₁.relaid (by omega) (by omega)
        (by omega) hitems
      exact ⟨d', array_eq_ok_iff.2 ⟨_, hgaps', .inr ⟨hne', vs, hd', rfl⟩⟩, hstep.trans h₂⟩
  · rcases hrest with ⟨o', x', rfl, -⟩ | ⟨-, vs, hitems, -⟩
    · exact absurd hstray (not_beginsStray solid_close x')
    · exact absurd hitems (arrayFrom_stray hf _ _ hstray)

/-- The marks that an inline table goes on with behind a pair. -/
def marksBehind (marks : List Mark) (k : Key) (v : Data) : List Mark :=
  if isCollection v then ⟨.frozen, k⟩ :: marks else marks

theorem inlineFrom_eq_ok_iff {k l : Nat} {marks : List Mark} {es es' : Entries} {c c' : Cursor} :
    inlineFrom k f (l + 1) marks es c = .ok (es', c') ↔
      ∃ key v c₁ es₁ o a x, pair k f c = .ok ((key, v), c₁) ∧ addInline marks es key v = .ok es₁ ∧
        c₁.skipWhile isSpace = ⟨o, a :: x⟩ ∧
        (a = '\x7d' ∧ (es', c') = (es₁, ⟨o + 1, x⟩) ∨
          a = ',' ∧ inlineFrom k f l (marksBehind marks key v) es₁
            (Cursor.skipWhile isSpace ⟨o + 1, x⟩) = .ok (es', c')) := by
  rw [inlineFrom]
  constructor
  · intro h
    split at h
    · cases h
    · next key v c₁ hpair =>
      split at h
      · cases h
      · next es₁ hadd =>
        split at h
        · next o x hspace =>
          cases h
          exact ⟨key, v, c₁, _, o, _, x, hpair, hadd, hspace, .inl ⟨rfl, rfl⟩⟩
        · next o x hspace =>
          exact ⟨key, v, c₁, es₁, o, _, x, hpair, hadd, hspace, .inr ⟨rfl, h⟩⟩
        · cases h
  · rintro ⟨key, v, c₁, es₁, o, a, x, hpair, hadd, hspace, ⟨rfl, heq⟩ | ⟨rfl, h⟩⟩
    · simp only [hpair, hadd, hspace, heq]
    · simp only [hpair, hadd, hspace]
      exact h

theorem solid_brace : Solid '\x7d' := ⟨by decide, by decide⟩

theorem inlineFrom_relaid (hf : RefusesStray f) (hfg : Simulates m n f g) {k l : Nat}
    {marks : List Mark} {es es' : Entries} {c d c' : Cursor} (h : Relaid c.rest d.rest)
    (hc : c.rest.length < m) (hd : d.rest.length < n) (hl : d.rest.length < l)
    (hread : inlineFrom m f k marks es c = .ok (es', c')) :
    ∃ d', inlineFrom n g l marks es d = .ok (es', d') ∧ Leads c d c' d' := by
  induction k generalizing l marks es c d with
  | zero => cases hread
  | succ k ih =>
    cases l with
    | zero => exact absurd hl (Nat.not_lt_zero _)
    | succ l =>
      obtain ⟨key, v, c₁, es₁, o, a, x, hpair, hadd, hspace, hrest⟩ := inlineFrom_eq_ok_iff.1 hread
      have ha : Solid a := by
        rcases hrest with ⟨rfl, -⟩ | ⟨rfl, -⟩
        · exact solid_brace
        · exact solid_comma
      obtain ⟨d₁, hpair', h₁⟩ := pair_relaid hf hfg _ _ _ _ h hc hd hpair
      have h₂ := h₁.spaces
      rw [hspace] at h₂
      rcases hspace' : d₁.skipWhile isSpace with ⟨p, y⟩
      rw [hspace'] at h₂
      obtain ⟨y, rfl, h₃⟩ := h₂.relaid.left ha
      have h₄ : Leads c d ⟨o + 1, x⟩ ⟨p + 1, y⟩ := h₂.trans (.cons h₃)
      rcases hrest with ⟨rfl, heq⟩ | ⟨rfl, hnext⟩
      · cases heq
        exact ⟨_, inlineFrom_eq_ok_iff.2 ⟨key, v, d₁, _, p, _, y, hpair', hadd, hspace',
          .inl ⟨rfl, rfl⟩⟩, h₄⟩
      · have h₅ := h₄.spaces
        have hlen := h₅.left
        have hlen' := h₂.right
        have hlen'' := length_dropWhile_le isSpace y
        rw [List.length_cons] at hlen'
        obtain ⟨d', hd', h₆⟩ := ih (l := l) h₅.relaid (by omega)
          (by rw [skipWhile_rest]; dsimp only; omega) (by rw [skipWhile_rest]; dsimp only; omega)
          hnext
        exact ⟨d', inlineFrom_eq_ok_iff.2 ⟨key, v, d₁, es₁, p, _, y, hpair', hadd, hspace',
          .inr ⟨rfl, hd'⟩⟩, h₅.trans h₆⟩

theorem inline_eq_ok_iff {k o : Nat} {a : Char} {x : Text} {v : Data} {c' : Cursor} :
    inline k f ⟨o, a :: x⟩ = .ok (v, c') ↔
      ∃ c₁, Cursor.skipWhile isSpace ⟨o + 1, x⟩ = c₁ ∧
        ((∃ p y, c₁ = ⟨p, '\x7d' :: y⟩ ∧ (v, c') = (.table [], ⟨p + 1, y⟩)) ∨
          c₁.rest.head? ≠ some '\x7d' ∧
            ∃ es, inlineFrom k f k [] [] c₁ = .ok (es, c') ∧ v = .table es) := by
  have hdrop : Cursor.drop 1 ⟨o, a :: x⟩ = ⟨o + 1, x⟩ := rfl
  unfold inline
  rw [hdrop]
  generalize Cursor.skipWhile isSpace ⟨o + 1, x⟩ = c₁
  constructor
  · intro h
    refine ⟨c₁, rfl, ?_⟩
    split at h
    · next p y => cases h; exact .inl ⟨p, y, rfl, rfl⟩
    · next hne =>
      obtain ⟨⟨es, c₂⟩, hread, heq⟩ := Json.exists_of_map_ok h
      cases heq
      refine .inr ⟨fun hhead => ?_, es, hread, rfl⟩
      obtain ⟨y, hy⟩ := List.head?_eq_some_iff.1 hhead
      exact hne c₁.offset y (by rw [← hy])
  · rintro ⟨c₂, rfl, ⟨p, y, rfl, heq⟩ | ⟨hne, es, hread, rfl⟩⟩
    · exact congrArg Except.ok heq.symm
    · split
      · exact absurd rfl hne
      · rw [hread]; rfl

theorem inline_relaid (hf : RefusesStray f) (hfg : Simulates m n f g) {o p : Nat} {x y : Text}
    {v : Data} {c' : Cursor} (h : Relaid x y) (hx : x.length < m) (hy : y.length < n)
    (hread : inline m f ⟨o, '\x7b' :: x⟩ = .ok (v, c')) :
    ∃ d', inline n g ⟨p, '\x7b' :: y⟩ = .ok (v, d') ∧
      Leads ⟨o, '\x7b' :: x⟩ ⟨p, '\x7b' :: y⟩ c' d' := by
  obtain ⟨c₁, rfl, hrest⟩ := inline_eq_ok_iff.1 hread
  have h₁ : Leads ⟨o + 1, x⟩ ⟨p + 1, y⟩ _ _ := (Leads.refl h).spaces
  have hstep : Leads ⟨o, '\x7b' :: x⟩ ⟨p, '\x7b' :: y⟩ _ _ := (Leads.cons h).trans h₁
  have hlen := h₁.left
  have hlen' := h₁.right
  dsimp only at hlen hlen'
  rcases hrest with ⟨o', x', hspace, heq⟩ | ⟨hne, es, hpairs, rfl⟩
  · rcases hspace' : Cursor.skipWhile isSpace ⟨p + 1, y⟩ with ⟨p', y'⟩
    rw [hspace, hspace'] at hstep
    obtain ⟨y', rfl, h₂⟩ := hstep.relaid.left solid_brace
    cases heq
    exact ⟨_, inline_eq_ok_iff.2 ⟨_, rfl, .inl ⟨p', y', hspace', rfl⟩⟩, hstep.trans (.cons h₂)⟩
  · have hne' : (Cursor.skipWhile isSpace ⟨p + 1, y⟩).rest.head? ≠ some '\x7d' := fun hhead =>
      hne ((h₁.relaid.head (by decide) (by decide)).2 hhead)
    obtain ⟨d', hd', h₂⟩ := inlineFrom_relaid hf hfg (l := n) h₁.relaid (by omega) (by omega)
      (by omega) hpairs
    exact ⟨d', inline_eq_ok_iff.2 ⟨_, rfl, .inr ⟨hne', es, hd', rfl⟩⟩, hstep.trans h₂⟩

/-- What a reader of values is given for those inside: two matching readers, or none. -/
inductive Inner (m n : Nat) : Option (Step Data) → Option (Step Data) → Prop
  | none : Inner m n none none
  | some {f g : Step Data} (hf : RefusesStray f) (hfg : Simulates m n f g) :
    Inner m n (some f) (some g)

theorem valueWith_quote {q : Char} (hq : isQuote q) (k o : Nat) (inner : Option (Step Data))
    (x : Text) :
    valueWith k inner ⟨o, q :: x⟩ =
      (string ⟨o, q :: x⟩).map fun r => (.text (WideText.ofText r.1), r.2) := by
  rcases isQuote_iff.1 hq with rfl | rfl <;> cases inner <;> rfl

theorem valueWith_plain {k : Nat} {inner : Option (Step Data)} {c : Cursor}
    (h : ∀ a ∈ ['"', '\'', '[', '\x7b'], c.rest.head? ≠ some a) :
    valueWith k inner c = plainValue c := by
  simp only [List.forall_mem_cons] at h
  obtain ⟨h₁, h₂, h₃, h₄, -⟩ := h
  unfold valueWith
  split
  all_goals first | rfl | next heq => exact absurd (congrArg List.head? heq) (by assumption)

theorem valueWith_stray (k : Nat) (inner : Option (Step Data)) :
    RefusesStray (valueWith k inner) := by
  intro c r h hc
  rw [valueWith_plain] at hc
  · exact plainValue_stray c r h hc
  · obtain ⟨a, x, hx, ha⟩ := h
    rw [hx]
    rintro b hb ⟨⟩
    have hnone : ∀ b ∈ ['"', '\'', '[', '\x7b'], isStray b = false :=
      List.forall_iff_forall_mem.1 (by decide)
    rw [hnone a hb] at ha
    cases ha

theorem valueWith_relaid {i j : Option (Step Data)} (hij : Inner m n i j) :
    Simulates m n (valueWith m i) (valueWith n j) := by
  intro c d v c' h hc hd hread
  obtain ⟨o, x⟩ := c
  obtain ⟨p, y⟩ := d
  have hvisible : ∀ a ∈ ['"', '\'', '[', '\x7b'], Text.isBlank a = false ∧ a ≠ '=' :=
    List.forall_iff_forall_mem.1 (by decide)
  by_cases hplain : ∀ a ∈ ['"', '\'', '[', '\x7b'], x.head? ≠ some a
  · have hplain' : ∀ a ∈ ['"', '\'', '[', '\x7b'], y.head? ≠ some a := fun a ha hy =>
      hplain a ha ((h.head (hvisible a ha).1 (hvisible a ha).2).2 hy)
    rw [valueWith_plain hplain] at hread
    rw [valueWith_plain hplain']
    exact plainValue_relaid h hread
  · obtain ⟨a, ha⟩ := not_forall.1 hplain
    obtain ⟨hmem, hhead⟩ := Classical.not_imp.1 ha
    obtain ⟨x, rfl⟩ := List.head?_eq_some_iff.1 (not_not.1 hhead)
    obtain ⟨y, rfl⟩ := List.head?_eq_some_iff.1
      ((h.head (hvisible a hmem).1 (hvisible a hmem).2).1 rfl)
    by_cases hq : isQuote a
    · rw [valueWith_quote hq] at hread
      obtain ⟨⟨s, c₁⟩, hstring, heq⟩ := Json.exists_of_map_ok hread
      cases heq
      obtain ⟨d', hd', h₁⟩ := string_relaid hq h hstring (p := p)
      exact ⟨d', by rw [valueWith_quote hq, hd']; rfl, h₁⟩
    · have hbracket : a = '[' ∨ a = '\x7b' := by
        simp only [List.mem_cons, List.not_mem_nil, or_false] at hmem
        rcases hmem with rfl | rfl | rfl | rfl
        · exact absurd rfl hq
        · exact absurd rfl hq
        · exact .inl rfl
        · exact .inr rfl
      have ha : Solid a := by rcases hbracket with rfl | rfl <;> exact ⟨by decide, by decide⟩
      obtain ⟨y', heq, h'⟩ := h.left ha
      cases heq
      cases hij with
      | none => rcases hbracket with rfl | rfl <;> cases hread
      | some hf hfg =>
        simp only [List.length_cons] at hc hd
        rcases hbracket with rfl | rfl
        · exact array_relaid hf hfg h' (by omega) (by omega) hread
        · exact inline_relaid hf hfg h' (by omega) (by omega) hread

theorem value_relaid (depth : Nat) : Simulates m n (value m depth) (value n depth) := by
  induction depth with
  | zero => exact valueWith_relaid .none
  | succ depth ih =>
    refine valueWith_relaid (.some ?_ ih)
    cases depth with
    | zero => exact valueWith_stray m none
    | succ depth => exact valueWith_stray m _

theorem value_stray (k depth : Nat) : RefusesStray (value k depth) := by
  cases depth with
  | zero => exact valueWith_stray k none
  | succ depth => exact valueWith_stray k _

end ConfigCare.Toml
