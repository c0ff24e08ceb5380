import ConfigCare.Proofs.TomlSpacing

/-! What formatting does to a string literal. The formatter goes through the lines of a text and sees
no literals, so it changes one that has the first equals sign of a line in it, or white space at the
end of a line, or two blank lines next to each other. `formedBehind_eq_iff` says when it changes
nothing. -/

namespace ConfigCare

namespace Text

/-- The first of several marks comes at one place only. -/
theorem append_cons_inj {c : Char} {a a' x x' : Text} (ha : c ∉ a) (ha' : c ∉ a') :
    a ++ c :: x = a' ++ c :: x' ↔ a = a' ∧ x = x' := by
  refine ⟨fun h => ?_, fun ⟨ha, hx⟩ => by rw [ha, hx]⟩
  induction a generalizing a' with
  | nil =>
    cases a' with
    | nil => exact ⟨rfl, (List.cons.inj h).2⟩
    | cons d a' => exact absurd (List.cons.inj h).1 fun hc => ha' (hc ▸ List.mem_cons_self)
  | cons d a ih =>
    cases a' with
    | nil => exact absurd (List.cons.inj h).1.symm fun hc => ha (hc ▸ List.mem_cons_self)
    | cons d' a' =>
      obtain ⟨rfl, hrest⟩ := List.cons.inj h
      rw [List.mem_cons, not_or] at ha ha'
      obtain ⟨rfl, rfl⟩ := ih ha.2 ha'.2 hrest
      exact ⟨rfl, rfl⟩

end Text

namespace Format

open Text

variable {fix : Text → Text}

theorem length_printedFrom (gap : Bool) (ls : List Text) :
    (printedFrom fix gap ls).length ≤ ls.length + if gap then 1 else 0 := by
  induction ls generalizing gap with
  | nil => simp [printedFrom]
  | cons l ls ih =>
    by_cases hl : isBlankLine l
    · have := ih true
      rw [printedFrom_blank hl, List.length_cons]
      simp only [if_true] at this
      omega
    · have := ih false
      rw [printedFrom_line hl, List.length_append, List.length_cons, List.length_cons]
      cases gap <;> simp at this ⊢ <;> omega

/-- Behind a blank line an empty one is printed first. -/
theorem head?_printedFrom {ls : List Text} (h : printedFrom fix true ls ≠ []) :
    (printedFrom fix true ls).head? = some [] := by
  induction ls with
  | nil => exact absurd rfl h
  | cons l ls ih =>
    by_cases hl : isBlankLine l
    · rw [printedFrom_blank hl] at h ⊢
      exact ih h
    · rw [printedFrom_line hl]
      rfl

/-- Lines are printed as they are if each one is, and no blank ones are next to each other. -/
theorem Tidies.printedFrom_eq_iff (h : Tidies fix) {ls : List Text} {m : Text}
    (hlast : ls.getLast? = some m) (hm : ¬ isBlankLine m) (gap : Bool) :
    printedFrom fix gap ls = (if gap then [[]] else []) ++ ls ↔
      (∀ l ∈ ls, fix (trimEnd l) = l) ∧ (ls.IsChain fun l l' => l ≠ [] ∨ l' ≠ []) ∧
        (gap = true → ls.head? ≠ some []) := by
  induction ls generalizing gap with
  | nil => cases hlast
  | cons l ls ih =>
    rw [List.forall_mem_cons, List.isChain_cons]
    by_cases hl : isBlankLine l
    · have hfix : fix (trimEnd l) = [] := h.blank l hl
      have hls : ls ≠ [] := by
        rintro rfl
        cases hlast
        exact hm hl
      have hlast' : ls.getLast? = some m := by
        rw [← hlast, ← List.singleton_append, List.getLast?_append_of_ne_nil _ hls]
      have hne : printedFrom fix true ls ≠ [] := fun hnil =>
        hm (printedFrom_eq_nil_iff.1 hnil m (List.mem_of_getLast? hlast'))
      rw [printedFrom_blank hl]
      cases gap with
      | true =>
        -- of two blank lines one is printed, so lines get lost
        have hlen : (printedFrom fix true ls).length ≤ ls.length + 1 := length_printedFrom true ls
        constructor
        · intro heq
          rw [heq] at hlen
          simp at hlen
        · rintro ⟨⟨hl', -⟩, -, hgap⟩
          exact absurd (congrArg some (hl'.symm.trans hfix)) (hgap rfl)
      | false =>
        constructor
        · intro heq
          have hhead := head?_printedFrom hne
          rw [heq] at hhead
          obtain rfl : l = [] := Option.some.inj hhead
          obtain ⟨hfixed, hchain, hgap⟩ := (ih hlast' true).1 heq
          exact ⟨⟨hfix, hfixed⟩,
            ⟨fun l' hl' => .inr fun hnil => hgap rfl (hnil ▸ hl'), hchain⟩, by simp⟩
        · rintro ⟨⟨hl', hfixed⟩, ⟨hhead, hchain⟩, -⟩
          obtain rfl : l = [] := hl'.symm.trans hfix
          refine (ih hlast' true).2 ⟨hfixed, hchain, fun _ hnil => ?_⟩
          exact (hhead [] hnil).elim (fun h => h rfl) fun h => h rfl
    · have hne : l ≠ [] := by
        rintro rfl
        exact hl rfl
      rw [printedFrom_line hl, List.append_cancel_left_eq, List.cons.injEq]
      by_cases hls : ls = []
      · subst hls
        simp [printedFrom, hne]
      · have hlast' : ls.getLast? = some m := by
          rw [← hlast, ← List.singleton_append, List.getLast?_append_of_ne_nil _ hls]
        have hiff := ih hlast' false
        simp only [Bool.false_eq_true, if_false, List.nil_append, false_imp_iff, and_true] at hiff
        simp [hiff, hne, and_assoc]

end Format

open Text Format

namespace Toml

variable {line b l : Text}

/-- Where the first equals sign of a line comes behind a key, single spaces stand around it in the
rest of the line, or it ends it. -/
def EvenlySpaced (line b : Text) : Prop :=
  ∀ k v, b = k ++ '=' :: v → IsKey (line ++ k) →
    trimEnd k ++ [' '] = k ∧ (v = [] ∨ v = ' ' :: trimStart v)

theorem value_eq_iff (v : Text) :
    trimEnd (' ' :: trimStart v) = v ↔ trimEnd v = v ∧ (v = [] ∨ v = ' ' :: trimStart v) := by
  constructor
  · intro h
    have htrim : trimEnd v = v := by
      rw [← h]
      exact trimEnd_eq_self (getLast?_trimEnd _)
    refine ⟨htrim, ?_⟩
    by_cases hblank : isBlankLine (trimStart v)
    · refine .inl ?_
      rw [← h, trimEnd_eq_nil_iff]
      exact isBlankLine_cons.2 ⟨by decide, hblank⟩
    · obtain ⟨a, -, hv⟩ := exists_trimStart v
      have hlast : ∀ c ∈ (trimStart v).getLast?, isBlank c = false := by
        intro c hc
        refine getLast?_trimEnd v c ?_
        rw [htrim, hv]
        exact List.mem_getLast?_append_of_mem_getLast? hc
      have hcut : trimEnd ([' '] ++ trimStart v) = [' '] ++ trimEnd (trimStart v) :=
        trimEnd_cut fun h => absurd h hblank
      rw [trimEnd_eq_self hlast] at hcut
      exact .inr (h.symm.trans hcut)
  · rintro ⟨htrim, rfl | hv⟩
    · rfl
    · rw [← hv, htrim]

/-- The rest of a line is printed as it is if it is trimmed and evenly spaced. -/
theorem spacedBehind_eq_iff (line b : Text) :
    spacedBehind line b = b ↔ trimEnd b = b ∧ EvenlySpaced line b := by
  by_cases hb : '=' ∈ b
  · obtain ⟨k, v, rfl, hk⟩ := List.eq_append_cons_of_mem hb
    have hsign := not_isBlankLine_cons (show isBlank '=' = false by decide) v
    have htrim : trimEnd (k ++ '=' :: v) = k ++ '=' :: v ↔ trimEnd v = v := by
      rw [trimEnd_cut fun h => absurd h hsign, trimEnd_sign, append_cons_inj hk hk]
      simp
    have heven : EvenlySpaced line (k ++ '=' :: v) ↔ (IsKey (line ++ k) →
        trimEnd k ++ [' '] = k ∧ (v = [] ∨ v = ' ' :: trimStart v)) := by
      refine ⟨fun h => h k v rfl, fun h k' v' heq hkey => ?_⟩
      have hk' : '=' ∉ k' := notMem_right hkey.noSign
      obtain ⟨rfl, rfl⟩ := (append_cons_inj hk hk').1 heq
      exact h hkey
    rw [spacedBehind_sign hk, htrim, heven]
    split
    · next hkey =>
      have hspace : '=' ∉ trimEnd k ++ [' '] := by simp [notMem_trimEnd hk]
      rw [trimEnd_spaced, append_cons_inj hspace hk, value_eq_iff]
      simp only [hkey, true_imp_iff]
      exact and_left_comm
    · next hkey =>
      rw [htrim]
      simp [hkey]
  · have heven : EvenlySpaced line b := by
      rintro k v rfl
      exact absurd (by simp) hb
    rw [spacedBehind_noSign hb]
    exact (and_iff_left heven).symm

/-- No line of a literal ends in white space, none of its blank lines are next to each other, and
an equals sign that is the first one of its line is evenly spaced. -/
structure Untouched (line l : Text) : Prop where
  trimmed : ∀ m ∈ splitOn '\n' l, trimEnd m = m
  apart : (splitOn '\n' l).IsChain fun m m' => m ≠ [] ∨ m' ≠ []
  first : ∀ m ∈ (splitOn '\n' l).head?, EvenlySpaced line m
  later : ∀ m ∈ (splitOn '\n' l).tail, EvenlySpaced [] m

theorem newline_notMem_printed (l : Text) :
    ∀ m ∈ printedFrom spacedAssignment false (splitOn '\n' l), '\n' ∉ m := by
  intro m hm
  rcases mem_printedFrom hm with rfl | ⟨k, hk, -, rfl⟩
  · simp
  · exact newline_notMem_spacedAssignment (notMem_trimEnd (not_mem_of_mem_splitOn k hk))

theorem formedLines_eq_iff {c : Char} (hl : l.getLast? = some c) (hc : isBlank c = false) :
    formedLines false l = l ++ ['\n'] ↔
      (∀ m ∈ splitOn '\n' l, trimEnd m = m ∧ EvenlySpaced [] m) ∧
        (splitOn '\n' l).IsChain fun m m' => m ≠ [] ∨ m' ≠ [] := by
  obtain ⟨m, hlast, hm⟩ : ∃ m, (splitOn '\n' l).getLast? = some m ∧ ¬ isBlankLine m := by
    obtain ⟨front, rfl⟩ := List.getLast?_eq_some_iff.1 hl
    have hbreak : '\n' ∉ [c] := by
      rw [List.mem_singleton]
      rintro rfl
      cases hc
    obtain ⟨ps, m, -, heq⟩ := splitOn_append_tail hbreak front
    exact ⟨m ++ [c], by simp [heq], by simp [isBlankLine, hc]⟩
  have hfixed (k : Text) : spacedAssignment (trimEnd k) = k ↔ trimEnd k = k ∧ EvenlySpaced [] k := by
    rw [← spacedBehind_nil, spacedBehind_eq_iff]
  have hiff := tidies_spacedAssignment.printedFrom_eq_iff hlast hm false
  simp only [Bool.false_eq_true, if_false, List.nil_append, false_imp_iff, and_true, hfixed] at hiff
  rw [formedLines, ← terminated_splitOn, ← hiff]
  exact ⟨terminated_inj (newline_notMem_printed l) not_mem_of_mem_splitOn, congrArg terminated⟩

/-- Formatting leaves a literal as it is if and only if nothing is to be done in it. -/
theorem formedBehind_eq_iff {q : Char} (hq : isQuote q) (hhead : l.head? = some q)
    (hlast : l.getLast? = some q) (line : Text) :
    formedBehind line l = l ++ ['\n'] ↔ Untouched line l := by
  have hblank := isBlank_of_isQuote hq
  by_cases hmem : '\n' ∈ l
  · obtain ⟨p, t, rfl, hp⟩ := List.eq_append_cons_of_mem hmem
    have hne : p ≠ [] := by
      rintro rfl
      cases hhead
      cases hblank
    have ht : t.getLast? = some q := getLast?_behind hlast (by rintro rfl; cases hblank)
    have hspaced : '\n' ∉ spacedBehind line p := fun h =>
      (mem_spacedBehind h).elim hp (by decide)
    have hform : formedBehind line (p ++ '\n' :: t) = p ++ '\n' :: t ++ ['\n'] ↔
        spacedBehind line p = p ∧ formedLines false t = t ++ ['\n'] := by
      rw [formedBehind_break hp, List.append_assoc, List.cons_append, append_cons_inj hspaced hp]
    rw [hform, spacedBehind_eq_iff, formedLines_eq_iff ht hblank]
    have hsplit := splitOn_break hp t
    constructor
    · rintro ⟨⟨htrim, heven⟩, hlater, hchain⟩
      refine ⟨?_, ?_, ?_, ?_⟩ <;> rw [hsplit]
      · exact List.forall_mem_cons.2 ⟨htrim, fun m hm => (hlater m hm).1⟩
      · exact List.isChain_cons.2 ⟨fun m _ => .inl hne, hchain⟩
      · rintro m ⟨⟩
        exact heven
      · exact fun m hm => (hlater m hm).2
    · rintro ⟨htrim, hchain, hfirst, hlater⟩
      rw [hsplit] at htrim hchain hfirst hlater
      obtain ⟨htrim, htrims⟩ := List.forall_mem_cons.1 htrim
      exact ⟨⟨htrim, hfirst p rfl⟩, fun m hm => ⟨htrims m hm, hlater m hm⟩,
        (List.isChain_cons.1 hchain).2⟩
  · rw [formedBehind_line hmem, List.append_cancel_right_eq, spacedBehind_eq_iff]
    have hsplit := splitOn_eq_singleton hmem
    constructor
    · rintro ⟨htrim, heven⟩
      exact ⟨by simpa [hsplit] using htrim, by simp [hsplit], by simpa [hsplit] using heven,
        by simp [hsplit]⟩
    · rintro ⟨htrim, -, hfirst, -⟩
      rw [hsplit] at htrim hfirst
      exact ⟨htrim l (by simp), hfirst l rfl⟩

/-- A literal that formatting makes no other string of, where `line` stands in front of it on its
line: it is printed as it is, or spelled otherwise. What is printed for a literal hangs on nothing
else, by `formedBehind_cut`. -/
def Spared (line l : Text) : Prop := ∃ k, Respelled l k ∧ formedBehind line l = k ++ ['\n']

/-- A literal is spared if nothing is to be done in it. -/
theorem spared_of_untouched {s : Text} {p : Text × Text} (hp : p ∈ placed line s)
    (h : Untouched p.1 p.2) : Spared p.1 p.2 := by
  obtain ⟨q, hq, hhead, hlast⟩ := quoted_of_mem_placedFrom hp
  exact ⟨p.2, .same p.2, (formedBehind_eq_iff hq hhead hlast p.1).2 h⟩

end Toml

end ConfigCare
