import ConfigCare.Proofs.TomlValues

/-! A TOML text that reads well reads the same however it is laid out: statement by statement, from
the first line to the last. -/

namespace ConfigCare.Toml

variable {m n : Nat}

theorem Relaid.repeated {a : Char} (ha : Solid a) (w : Nat) {x y : Text} (h : Relaid x y)
    (hx : Text.startsWith (List.replicate w a) x) :
    Text.startsWith (List.replicate w a) y ∧ Relaid (x.drop w) (y.drop w) := by
  induction w generalizing x y with
  | zero => exact ⟨rfl, h⟩
  | succ w ih =>
    obtain ⟨r, rfl⟩ := Text.startsWith_iff.1 hx
    obtain ⟨y, rfl, h'⟩ := Relaid.left (x := List.replicate w a ++ r) ha h
    have hr : Text.startsWith (List.replicate w a) (List.replicate w a ++ r) :=
      Text.startsWith_iff.2 (List.prefix_append _ _)
    obtain ⟨hy, hdrop⟩ := ih h' hr
    exact ⟨by simpa [List.replicate_succ, Text.startsWith, Text.dropStart?] using hy, hdrop⟩

theorem Leads.drop {w : Nat} {c d : Cursor} (h : Relaid (c.rest.drop w) (d.rest.drop w)) :
    Leads c d (c.drop w) (d.drop w) :=
  ⟨h, (List.drop_suffix _ _).length_le, (List.drop_suffix _ _).length_le⟩

/-- Reads a header whose brackets are given in number. -/
def headerOf (k : Nat) (e : Document) (w : Nat) (item : Bool) (c : Cursor) :
    Except Failure (Document × Cursor) :=
  match key k ((c.drop w).skipWhile isSpace) with
  | .error e => .error e
  | .ok (k, c) =>
    match if item then e.openItem k else e.openTable k with
    | .error fault => fail fault c.offset
    | .ok d =>
      if Text.startsWith (List.replicate w ']') c.rest then .ok (d, c.drop w)
      else fail (if item then .arrayEnd else .tableEnd) c.offset

theorem header_eq (k : Nat) (e : Document) (c : Cursor) :
    header k e c =
      if Text.startsWith ['[', '['] c.rest then headerOf k e 2 true c
      else headerOf k e 1 false c := by
  unfold header headerOf
  split
  · next h => rw [h]; rfl
  · next h => rw [Bool.eq_false_iff.2 h]; rfl

theorem headerOf_relaid {e e' : Document} {w : Nat} (hw : 0 < w) {item : Bool} {c d c' : Cursor}
    (h : Relaid (c.rest.drop w) (d.rest.drop w)) (hd : d.rest.length < n)
    (hread : headerOf m e w item c = .ok (e', c')) :
    ∃ d', headerOf n e w item d = .ok (e', d') ∧ Leads c d c' d' := by
  have hspaces := (Leads.drop h).spaces
  have hlen := hspaces.right
  unfold headerOf at hread ⊢
  rcases hkey : key m ((c.drop w).skipWhile isSpace) with e | ⟨k, c₁⟩
  · rw [hkey] at hread; cases hread
  rw [hkey] at hread
  dsimp only at hread
  split at hread
  · cases hread
  · next e₁ hopen =>
    split at hread
    · next hclose =>
      cases hread
      have hlt : ((d.drop w).skipWhile isSpace).rest.length < n := by omega
      rcases keyFrom_relaid hspaces.relaid hlt hkey with ⟨d₁, hkey', h₁⟩ | ⟨q, hq, hhead⟩
      · obtain ⟨hclose', hdrop⟩ := Relaid.repeated solid_close w h₁.relaid hclose
        refine ⟨d₁.drop w, ?_, hspaces.trans (h₁.trans (.drop hdrop))⟩
        rw [key, hkey']
        dsimp only
        rw [hopen]
        exact if_pos hclose'
      · obtain ⟨w, rfl⟩ := Nat.exists_eq_add_of_lt hw
        obtain ⟨r, hr⟩ := Text.startsWith_iff.1 hclose
        rw [← hr] at hhead
        cases hhead
        cases hq
    · cases hread

theorem header_relaid {e e' : Document} {c d c' : Cursor} (h : Relaid c.rest d.rest)
    (hc : c.rest.head? = some '[') (hd : d.rest.length < n)
    (hread : header m e c = .ok (e', c')) :
    ∃ d', header n e d = .ok (e', d') ∧ Leads c d c' d' := by
  have hopen : Solid '[' := ⟨by decide, by decide⟩
  obtain ⟨o, x⟩ := c
  obtain ⟨p, y⟩ := d
  obtain ⟨x, rfl⟩ := List.head?_eq_some_iff.1 hc
  obtain ⟨y, rfl, h'⟩ := h.left hopen
  have hitem {x : Text} : Text.startsWith ['[', '['] ('[' :: x) ↔ x.head? = some '[' := by
    constructor
    · intro hs
      obtain ⟨r, hr⟩ := Text.startsWith_iff.1 hs
      cases hr
      rfl
    · intro hs
      obtain ⟨r, rfl⟩ := List.head?_eq_some_iff.1 hs
      exact Text.startsWith_iff.2 ⟨r, rfl⟩
  rw [header_eq] at hread ⊢
  split at hread
  · next hs =>
    have hx := hitem.1 hs
    obtain ⟨x, rfl⟩ := List.head?_eq_some_iff.1 hx
    obtain ⟨y, rfl, h''⟩ := h'.left hopen
    rw [if_pos (hitem.2 rfl)]
    exact headerOf_relaid (by decide) (d := ⟨p, '[' :: '[' :: y⟩) h'' hd hread
  · next hs =>
    have hy : ¬ Text.startsWith ['[', '['] ('[' :: y) := fun hy =>
      hs (hitem.2 ((h'.head (by decide) (by decide)).2 (hitem.1 hy)))
    rw [if_neg hy]
    exact headerOf_relaid (by decide) (d := ⟨p, '[' :: y⟩) h' hd hread

theorem isBareKeyChar_or_isQuote {a : Char} :
    (isBareKeyChar a || a = '"' || a = '\'') = true ↔ isBareKeyChar a ∨ isQuote a := by
  simp [isQuote_iff, or_assoc]

theorem statement_eq_ok_iff {k o : Nat} {a : Char} {x : Text} {e e' : Document} {c' : Cursor} :
    statement k e ⟨o, a :: x⟩ = .ok (e', c') ↔
      a = '#' ∧ (e', c') = (e, ⟨o, a :: x⟩) ∨
      a = '[' ∧ header k e ⟨o, a :: x⟩ = .ok (e', c') ∨
      (isBareKeyChar a ∨ isQuote a) ∧ ∃ key v, e.add key v = .ok e' ∧
        pair k (value k depthLimit) ⟨o, a :: x⟩ = .ok ((key, v), c') := by
  constructor
  · intro h
    unfold statement at h
    split at h
    · next heq => cases heq; cases h; exact .inl ⟨rfl, rfl⟩
    · next heq => cases heq; exact .inr (.inl ⟨rfl, h⟩)
    · next heq =>
      cases heq
      split at h
      · next ha =>
        split at h
        · cases h
        · next key v c₁ hpair =>
          split at h
          · cases h
          · next hadd =>
            cases h
            exact .inr (.inr ⟨isBareKeyChar_or_isQuote.1 ha, key, v, hadd, hpair⟩)
      · cases h
    · next heq => cases heq
  · rintro (⟨rfl, heq⟩ | ⟨rfl, h⟩ | ⟨ha, key, v, hadd, hpair⟩)
    · rw [heq]; rfl
    · exact h
    · unfold statement
      split
      · next heq => cases heq; rcases ha with ha | ha <;> cases ha
      · next heq => cases heq; rcases ha with ha | ha <;> cases ha
      · next heq =>
        cases heq
        rw [if_pos (isBareKeyChar_or_isQuote.2 ha), hpair]
        dsimp only
        rw [hadd]
      · next heq => cases heq

/-- What a statement may begin with. -/
theorem visible_of_statement {k o : Nat} {a : Char} {x : Text} {e e' : Document} {c' : Cursor}
    (h : statement k e ⟨o, a :: x⟩ = .ok (e', c')) : Text.isBlank a = false ∧ a ≠ '=' := by
  rcases statement_eq_ok_iff.1 h with ⟨rfl, -⟩ | ⟨rfl, -⟩ | ⟨hbare | hq, -⟩
  · decide
  · decide
  · have ha := solid_of_isWordChar (isWordChar_of_isBareKeyChar hbare)
    exact ⟨ha.visible, ha.ne_equals⟩
  · rcases isQuote_iff.1 hq with rfl | rfl <;> decide

theorem statement_relaid {o : Nat} {a : Char} {x : Text} {e e' : Document} {d c' : Cursor}
    (h : Relaid (a :: x) d.rest) (hc : (a :: x).length < m) (hd : d.rest.length < n)
    (hread : statement m e ⟨o, a :: x⟩ = .ok (e', c')) :
    ∃ d', statement n e d = .ok (e', d') ∧ Leads ⟨o, a :: x⟩ d c' d' := by
  obtain ⟨p, y⟩ := d
  obtain ⟨hvisible, hne⟩ := visible_of_statement hread
  obtain ⟨y, rfl⟩ := List.head?_eq_some_iff.1 ((h.head hvisible hne).1 rfl)
  rcases statement_eq_ok_iff.1 hread with ⟨rfl, heq⟩ | ⟨rfl, hheader⟩ | ⟨ha, key, v, hadd, hpair⟩
  · cases heq
    exact ⟨_, statement_eq_ok_iff.2 (.inl ⟨rfl, rfl⟩), .refl h⟩
  · obtain ⟨d', hd', h₁⟩ := header_relaid (d := ⟨p, '[' :: y⟩) h rfl hd hheader
    exact ⟨d', statement_eq_ok_iff.2 (.inr (.inl ⟨rfl, hd'⟩)), h₁⟩
  · obtain ⟨d', hd', h₁⟩ := pair_relaid (value_stray m depthLimit) (value_relaid depthLimit) _
      ⟨p, a :: y⟩ _ _ h hc hd hpair
    exact ⟨d', statement_eq_ok_iff.2 (.inr (.inr ⟨ha, key, v, hadd, hd'⟩)), h₁⟩

/-! ## Lines -/

theorem skipWhile_of_imp {p q : Char → Bool} (hpq : ∀ a, p a → q a) (c : Cursor) :
    (c.skipWhile p).skipWhile q = c.skipWhile q := by
  obtain ⟨o, x⟩ := c
  unfold Cursor.skipWhile
  induction x generalizing o with
  | nil => rfl
  | cons a x ih =>
    by_cases ha : p a
    · simp only [Cursor.skipFrom, ha, hpq a ha, if_true]
      exact ih (o + 1)
    · simp [Cursor.skipFrom, ha]

theorem skipWhile_cons_of_pos {p : Char → Bool} {a : Char} (ha : p a) (o : Nat) (x : Text) :
    Cursor.skipWhile p ⟨o, a :: x⟩ = Cursor.skipWhile p ⟨o + 1, x⟩ := by
  simp [Cursor.skipWhile, Cursor.skipFrom, ha]

theorem skipWhile_cons_of_neg {p : Char → Bool} {a : Char} (ha : p a = false) (o : Nat)
    (x : Text) : Cursor.skipWhile p ⟨o, a :: x⟩ = ⟨o, a :: x⟩ := by
  simp [Cursor.skipWhile, Cursor.skipFrom, ha]

theorem not_isSpace_of_settled {p : Char → Bool} {o : Nat} {a : Char} {x : Text}
    (h : Cursor.skipWhile p ⟨o, a :: x⟩ = ⟨o, a :: x⟩) : p a = false := by
  have hrest := congrArg Cursor.rest h
  rw [skipWhile_rest, List.dropWhile_eq_self_iff] at hrest
  simpa using hrest

theorem isSpace_of_isSpaceOrBreak {a : Char} (ha : isSpaceOrBreak a = false) :
    isSpace a = false := by
  simp only [isSpaceOrBreak, Bool.or_eq_false_iff] at ha
  exact ha.1

theorem statements_nil (k l o : Nat) (e : Document) : statements k l e ⟨o, []⟩ = .ok e := by
  cases l <;> rfl

/-- Lines without a statement are passed over. -/
theorem statements_gaps (k l : Nat) (e : Document) {c : Cursor} (h : c.rest.length < l) :
    ∃ i, (c.rest.dropWhile isSpaceOrBreak).length < i ∧ i ≤ l ∧
      statements k l e c = statements k i e (c.skipWhile isSpaceOrBreak) := by
  induction l generalizing c with
  | zero => exact absurd h (Nat.not_lt_zero _)
  | succ l ih =>
    have hspaces := skipWhile_of_imp (p := isSpace) (fun _ => isSpaceOrBreak_of_isSpace) c
    have hlen := length_dropWhile_le isSpace c.rest
    rw [← skipWhile_rest] at hlen ⊢
    rw [← hspaces]
    have hidem := skipWhile_skipWhile isSpace c
    have hstep : statements k (l + 1) e c = statements k (l + 1) e (c.skipWhile isSpace) := by
      rw [statements, statements, hidem]
    rw [hstep]
    generalize c.skipWhile isSpace = c₁ at hidem hlen
    obtain ⟨o, x⟩ := c₁
    by_cases hbreak : x.head? = some '\n'
    · obtain ⟨x, rfl⟩ := List.head?_eq_some_iff.1 hbreak
      rw [skipWhile_cons_of_pos (by decide), skipWhile_rest]
      rw [List.length_cons] at hlen
      obtain ⟨i, hlt, hle, heq⟩ := ih (c := ⟨o + 1, x⟩) (by dsimp only; omega)
      refine ⟨i, hlt, by omega, ?_⟩
      rw [← heq, statements, hidem]
      rfl
    · have hgaps : Cursor.skipWhile isSpaceOrBreak ⟨o, x⟩ = ⟨o, x⟩ := by
        cases x with
        | nil => rfl
        | cons a x =>
          have hspace : isSpace a = false := not_isSpace_of_settled hidem
          have hne : a ≠ '\n' := fun ha => hbreak (congrArg some ha)
          exact skipWhile_cons_of_neg (by simp [isSpaceOrBreak, hspace, hne]) o x
      rw [hgaps]
      exact ⟨l + 1, by dsimp only at hlen ⊢; omega, le_rfl, rfl⟩

/-- A line that has a statement, and the lines that follow it. -/
theorem statements_eq_ok_iff {k l o : Nat} {a : Char} {x : Text} {e e' : Document}
    (ha : isSpaceOrBreak a = false) :
    statements k (l + 1) e ⟨o, a :: x⟩ = .ok e' ↔
      ∃ e₁ c₁ c₂, statement k e ⟨o, a :: x⟩ = .ok (e₁, c₁) ∧
        skipComment (c₁.skipWhile isSpace) = .ok c₂ ∧ AtBreak c₂.rest ∧
        statements k l e₁ (c₂.drop 1) = .ok e' := by
  have hspace : Cursor.skipWhile isSpace ⟨o, a :: x⟩ = ⟨o, a :: x⟩ :=
    skipWhile_cons_of_neg (isSpace_of_isSpaceOrBreak ha) o x
  rw [statements, hspace]
  constructor
  · intro h
    split at h
    · next heq => cases heq
    · next heq => cases heq; cases ha
    · split at h
      · cases h
      · next e₁ c₁ hstatement =>
        split at h
        · cases h
        · next hcomment =>
          refine ⟨e₁, c₁, _, hstatement, hcomment, .inl rfl, ?_⟩
          rw [← h]
          exact statements_nil k l _ e₁
        · next hcomment => exact ⟨e₁, c₁, _, hstatement, hcomment, .inr rfl, h⟩
        · cases h
  · rintro ⟨e₁, c₁, ⟨p, y⟩, hstatement, hcomment, hbreak, h⟩
    split
    · next heq => cases heq
    · next heq => cases heq; cases ha
    · rw [hstatement]
      dsimp only
      rw [hcomment]
      rcases hbreak with hend | hbreak
      · obtain rfl : y = [] := List.head?_eq_none_iff.1 hend
        rw [← h]
        exact (statements_nil k l _ e₁).symm
      · obtain ⟨y, rfl⟩ := List.head?_eq_some_iff.1 hbreak
        exact h

theorem dropGaps_drop_one {x : Text} (hx : AtBreak x) :
    (x.drop 1).dropWhile isSpaceOrBreak = x.dropWhile isSpaceOrBreak := by
  rcases hx with hend | hbreak
  · obtain rfl : x = [] := List.head?_eq_none_iff.1 hend
    rfl
  · obtain ⟨x, rfl⟩ := List.head?_eq_some_iff.1 hbreak
    rfl

theorem dropSpaces_of_atBreak {x : Text} (hx : AtBreak x) : x.dropWhile isSpace = x := by
  rcases hx with hend | hbreak
  · rw [List.head?_eq_none_iff.1 hend]; rfl
  · obtain ⟨x, rfl⟩ := List.head?_eq_some_iff.1 hbreak
    rfl

theorem atBreak_dropLine (x : Text) : AtBreak (x.dropWhile (· ≠ '\n')) := by
  have hhead := List.head?_dropWhile_not (· ≠ '\n') x
  unfold AtBreak
  rcases h : (x.dropWhile (· ≠ '\n')).head? with _ | a
  · exact .inl rfl
  · rw [h] at hhead
    exact .inr (by simpa using hhead)

/-- No space is left in front of the end of a line. -/
theorem skipComment_spaces {c c' : Cursor} (hc : c.rest.dropWhile isSpace = c.rest)
    (h : skipComment c = .ok c') : c'.rest.dropWhile isSpace = c'.rest := by
  obtain ⟨o, x⟩ := c
  by_cases hhash : x.head? = some '#'
  · obtain ⟨x, rfl⟩ := List.head?_eq_some_iff.1 hhash
    have hline : '\n' ∉ x.takeWhile (· ≠ '\n') := fun hmem => by
      simpa using List.mem_takeWhile_imp hmem
    rw [← List.takeWhile_append_dropWhile (p := (· ≠ '\n')) (l := x),
      skipComment_hash hline (atBreak_dropLine x)] at h
    split at h
    · cases h
    · cases h
      exact dropSpaces_of_atBreak (atBreak_dropLine x)
  · rw [skipComment_of_ne hhash] at h
    cases h
    exact hc

theorem statements_stray {k l : Nat} {e e' : Document} {c : Cursor}
    (h : BeginsStray (c.rest.dropWhile isSpaceOrBreak)) (hl : c.rest.length < l) :
    statements k l e c ≠ .ok e' := by
  intro hread
  obtain ⟨i, hi, -, heq⟩ := statements_gaps k l e hl
  rw [heq] at hread
  rw [← skipWhile_rest] at h hi
  generalize c.skipWhile isSpaceOrBreak = c₁ at *
  obtain ⟨o, x⟩ := c₁
  obtain ⟨a, x, rfl, ha⟩ := h
  obtain ⟨i, rfl⟩ := Nat.exists_eq_add_of_lt (Nat.zero_lt_of_lt hi)
  rw [Nat.zero_add, statements_eq_ok_iff (isSpaceOrBreak_of_isStray ha)] at hread
  obtain ⟨e₁, c₁, -, hstatement, -⟩ := hread
  have hvisible := (visible_of_statement hstatement).1
  simp [isStray, hvisible] at ha

/-- A line with a statement is laid out otherwise, with the end of the line at its end. -/
theorem line_relaid {o : Nat} {a : Char} {x : Text} {e e' : Document} {d c₁ c₂ : Cursor}
    (h : Relaid (a :: x) d.rest) (hc : (a :: x).length < m) (hd : d.rest.length < n)
    (hread : statement m e ⟨o, a :: x⟩ = .ok (e', c₁))
    (hcomment : skipComment (c₁.skipWhile isSpace) = .ok c₂) (hbreak : AtBreak c₂.rest) :
    ∃ d₁ d₂, statement n e d = .ok (e', d₁) ∧ skipComment (d₁.skipWhile isSpace) = .ok d₂ ∧
      AtBreak d₂.rest ∧ Leads ⟨o, a :: x⟩ d c₂ d₂ := by
  obtain ⟨d₁, hread', h₁⟩ := statement_relaid h hc hd hread
  obtain ⟨d₂, hcomment', h₂, -⟩ := skipComment_relaid h₁.spaces.relaid hcomment
  refine ⟨d₁, d₂, hread', hcomment', ?_, h₁.spaces.trans h₂⟩
  rw [← skipComment_spaces _ hcomment']
  · exact h₂.relaid.atBreak hbreak
  · rw [skipWhile_rest, List.dropWhile_idempotent]

/-- A text whose lines are laid out otherwise holds the same statements. -/
theorem statements_relaid {k l : Nat} {e e' : Document} {c d : Cursor}
    (h : Relaid (c.rest.dropWhile isSpaceOrBreak) (d.rest.dropWhile isSpaceOrBreak))
    (hc : c.rest.length < m) (hd : d.rest.length < n) (hk : c.rest.length < k)
    (hl : d.rest.length < l) (hread : statements m k e c = .ok e') :
    statements n l e d = .ok e' := by
  induction k using Nat.strong_induction_on generalizing l e c d with
  | _ k ih =>
  obtain ⟨i, hi, hik, heq⟩ := statements_gaps m k e hk
  obtain ⟨j, hj, -, heq'⟩ := statements_gaps n l e hl
  rw [heq] at hread
  rw [heq']
  have hx := length_dropWhile_le isSpaceOrBreak c.rest
  have hy := length_dropWhile_le isSpaceOrBreak d.rest
  have hsettled := skipWhile_skipWhile isSpaceOrBreak c
  have hsettled' := skipWhile_skipWhile isSpaceOrBreak d
  rw [← skipWhile_rest] at h hi hj hx hy
  rw [← skipWhile_rest] at h
  generalize c.skipWhile isSpaceOrBreak = c₁ at *
  generalize d.skipWhile isSpaceOrBreak = d₁ at *
  obtain ⟨o, x⟩ := c₁
  obtain ⟨p, y⟩ := d₁
  dsimp only at h hi hj hx hy
  cases x with
  | nil =>
    obtain rfl : y = [] := by
      have hnil := List.dropWhile_eq_nil_iff.2 (List.all_eq_true.1 h.nil_left)
      rwa [← skipWhile_rest isSpaceOrBreak ⟨p, y⟩, hsettled'] at hnil
    rw [statements_nil] at hread ⊢
    exact hread
  | cons a x =>
    have ha := not_isSpace_of_settled hsettled
    obtain ⟨i, rfl⟩ := Nat.exists_eq_add_of_lt (Nat.zero_lt_of_lt hi)
    rw [Nat.zero_add] at hread
    obtain ⟨e₁, c₁, c₂, hstatement, hcomment, hbreak, hlater⟩ := (statements_eq_ok_iff ha).1 hread
    obtain ⟨d₁, d₂, hstatement', hcomment', hbreak', h₂⟩ := line_relaid (n := n) (d := ⟨p, y⟩) h
      (by omega) (by dsimp only; omega) hstatement hcomment hbreak
    obtain ⟨hvisible, hne⟩ := visible_of_statement hstatement
    obtain ⟨y, rfl⟩ := List.head?_eq_some_iff.1 ((h.head hvisible hne).1 rfl)
    obtain ⟨j, rfl⟩ := Nat.exists_eq_add_of_lt (Nat.zero_lt_of_lt hj)
    rw [Nat.zero_add]
    refine (statements_eq_ok_iff ha).2 ⟨e₁, d₁, d₂, hstatement', hcomment', hbreak', ?_⟩
    have hlen := h₂.left
    have hlen' := h₂.right
    have hdrop {z : Text} : (z.drop 1).length = z.length - 1 := List.length_drop
    simp only [List.length_cons] at hx hy hi hj hlen hlen'
    refine ih i (by omega) ?_ ?_ ?_ ?_ ?_ hlater
    · rw [Cursor.drop, Cursor.drop, dropGaps_drop_one hbreak, dropGaps_drop_one hbreak']
      refine h₂.relaid.dropGaps.resolve_right fun hstray => ?_
      rw [← dropGaps_drop_one hbreak] at hstray
      refine statements_stray (c := c₂.drop 1) hstray ?_ hlater
      rw [Cursor.drop, hdrop]; omega
    · rw [Cursor.drop, hdrop]; omega
    · rw [Cursor.drop, hdrop]; omega
    · rw [Cursor.drop, hdrop]; omega
    · rw [Cursor.drop, hdrop]; omega

theorem read_eq_ok_iff {s : Text} {es : Entries} :
    read s = .ok es ↔
      ∃ e, statements ((unifyBreaks s).length + 1) ((unifyBreaks s).length + 1) ⟨[], [], [], []⟩
        ⟨0, unifyBreaks s⟩ = .ok e ∧ e.entries = es := by
  unfold read
  dsimp only
  constructor
  · intro h
    split at h
    · cases h
    · next e heq => cases h; exact ⟨e, heq, rfl⟩
  · rintro ⟨e, heq, rfl⟩
    rw [heq]

/-- A text that reads well reads the same when it is laid out otherwise. -/
theorem read_relaid {s t : Text} {es : Entries} (h : Relaid (unifyBreaks s) (unifyBreaks t))
    (hs : read s = .ok es) : read t = .ok es := by
  obtain ⟨e, hread, rfl⟩ := read_eq_ok_iff.1 hs
  have hgaps := h.dropGaps.resolve_right fun hstray =>
    statements_stray hstray (Nat.lt_succ_self _) hread
  exact read_eq_ok_iff.2 ⟨e, statements_relaid (c := ⟨0, unifyBreaks s⟩) (d := ⟨0, unifyBreaks t⟩)
    hgaps (Nat.lt_succ_self _) (Nat.lt_succ_self _) (Nat.lt_succ_self _) (Nat.lt_succ_self _)
    hread, rfl⟩

end ConfigCare.Toml
