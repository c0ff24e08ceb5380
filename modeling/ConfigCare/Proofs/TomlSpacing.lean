import ConfigCare.Proofs.NormalizedLines
import ConfigCare.Toml.Reader
import ConfigCare.Proofs.QuotedStrings

/-! What the TOML formatter does to a text as a whole: the lines it prints differ from those of the
text in white space only, and only at the ends of lines, around equals signs and in blank lines. -/

namespace ConfigCare

namespace Text

theorem dropReturns_cons (l : Text) {ls : List Text} (h : ls ≠ []) :
    dropReturns (l :: ls) = dropReturn l :: dropReturns ls := by
  cases ls with
  | nil => exact absurd rfl h
  | cons l' ls => simp [dropReturns]

theorem dropReturn_cons {c : Char} {l : Text} (h : c = '\r' → l ≠ []) :
    dropReturn (c :: l) = c :: dropReturn l := by
  rcases List.eq_nil_or_concat l with rfl | ⟨l, d, rfl⟩
  · have hc : c ≠ '\r' := fun hc => h hc rfl
    unfold dropReturn
    split
    · next heq => cases heq; exact absurd rfl hc
    · rfl
  · by_cases hd : d = '\r'
    · subst hd
      simp [dropReturn]
    · unfold dropReturn
      split
      · next heq => simp [hd] at heq
      · split
        · next heq => simp [hd] at heq
        · rfl

end Text

open Text Format

namespace Toml

theorem unifyBreaks_return (x : Text) :
    unifyBreaks ('\r' :: '\n' :: x) = '\n' :: unifyBreaks x := rfl

theorem unifyBreaks_cons {c : Char} {x : Text} (h : c = '\r' → x.head? ≠ some '\n') :
    unifyBreaks (c :: x) = c :: unifyBreaks x := by
  have hs : ¬ startsWith ['\r', '\n'] (c :: x) := by
    intro hs
    obtain ⟨r, hr⟩ := startsWith_iff.1 hs
    cases hr
    exact h rfl rfl
  exact if_neg hs

theorem lines_break (x : Text) : lines ('\n' :: x) = [] :: lines x := by
  have hsplit : splitOn '\n' ('\n' :: x) = [] :: splitOn '\n' x := splitOn_append '\n' [] x
  rw [lines, hsplit]
  exact dropReturns_cons [] (splitOn_ne_nil _ x)

/-- Formatter and reader see the same lines. -/
theorem lines_eq (s : Text) : lines s = splitOn '\n' (unifyBreaks s) := by
  induction s with
  | nil => rfl
  | cons c x ih =>
    by_cases hc : c = '\n'
    · subst hc
      rw [unifyBreaks_cons (fun h => absurd h (by decide)), lines_break, ih]
      exact (splitOn_append '\n' [] _).symm
    by_cases hr : c = '\r' ∧ x.head? = some '\n'
    · obtain ⟨rfl, hx⟩ := hr
      obtain ⟨x, rfl⟩ := List.head?_eq_some_iff.1 hx
      have hlines : lines ('\r' :: '\n' :: x) = lines ('\n' :: x) := by
        have hsplit : splitOn '\n' ('\r' :: '\n' :: x) = ['\r'] :: splitOn '\n' x :=
          splitOn_append '\n' ['\r'] x
        rw [lines_break, lines, hsplit]
        exact dropReturns_cons ['\r'] (splitOn_ne_nil _ x)
      rw [hlines, ih, unifyBreaks_return, unifyBreaks_cons fun h => absurd h (by decide)]
    · have hmem : '\n' ∉ [c] := by simpa using Ne.symm hc
      rw [unifyBreaks_cons fun h hx => hr ⟨h, hx⟩]
      obtain ⟨l, ps, hx, hcx⟩ := splitOn_append_head hmem x
      obtain ⟨l', ps', hu, hcu⟩ := splitOn_append_head hmem (unifyBreaks x)
      rw [hu, lines, hx] at ih
      rw [List.singleton_append] at hcx hcu
      rw [lines, hcx, hcu]
      cases ps with
      | nil => cases ih; rfl
      | cons p ps =>
        rw [dropReturns_cons l (by simp)] at ih
        obtain ⟨rfl, rfl⟩ := List.cons.inj ih
        rw [List.singleton_append, dropReturns_cons _ (by simp), dropReturn_cons]
        · rfl
        -- a line that a return stands alone in ends in a line feed
        · rintro hreturn rfl
          refine hr ⟨hreturn, ?_⟩
          rw [← joinWith_splitOn '\n' x, hx]
          rfl

theorem newline_notMem_lines (s : Text) : ∀ l ∈ lines s, '\n' ∉ l :=
  lines_eq s ▸ not_mem_of_mem_splitOn

theorem notMem_left {c : Char} {a b : Text} (h : c ∉ a ++ b) : c ∉ a := fun hc =>
  h (List.mem_append_left b hc)

theorem notMem_right {c : Char} {a b : Text} (h : c ∉ a ++ b) : c ∉ b := fun hc =>
  h (List.mem_append_right a hc)

theorem notMem_trimEnd {c : Char} {s : Text} (h : c ∉ s) : c ∉ trimEnd s := by
  obtain ⟨b, -, heq⟩ := exists_trimEnd s
  exact notMem_left (heq ▸ h)

theorem notMem_trimStart {c : Char} {s : Text} (h : c ∉ s) : c ∉ trimStart s := by
  obtain ⟨b, -, heq⟩ := exists_trimStart s
  exact notMem_right (heq ▸ h)

theorem tidies_spacedAssignment : Tidies spacedAssignment where
  blank l hl := by
    rw [(trimEnd_eq_nil_iff l).2 hl]
    rfl
  visible l hl := by
    have hlast : ∀ c ∈ (spacedAssignment (trimEnd l)).getLast?, isBlank c = false := by
      rcases spacedAssignment_cases (trimEnd l) with h | ⟨k, v, -, h⟩ <;>
        · rw [h]
          exact getLast?_trimEnd _
    rcases List.eq_nil_or_concat (spacedAssignment (trimEnd l)) with hnil | ⟨b, c, heq⟩
    · have hvisible := visible_spacedAssignment (trimEnd l)
      rw [hnil, visible_trimEnd] at hvisible
      refine absurd ?_ hl
      simpa [visible, isBlankLine] using hvisible.symm
    · rw [List.concat_eq_append] at heq
      exact ⟨b, c, heq, hlast c (by simp [heq])⟩

/-! ## The rest of a line -/

/-- What is printed for the rest of a line, `line` being what stands in front of it. -/
def spacedBehind (line b : Text) : Text :=
  match b.dropWhile (· ≠ '=') with
  | [] => trimEnd b
  | _ :: v =>
    let k := b.takeWhile (· ≠ '=')
    if IsKey (line ++ k) then trimEnd (trimEnd k ++ Text.lit " = " ++ trimStart v) else trimEnd b

variable {line a b k v w u x z : Text}

theorem spacedBehind_noSign (hb : '=' ∉ b) (line : Text) : spacedBehind line b = trimEnd b := by
  have hdrop : b.dropWhile (· ≠ '=') = [] :=
    List.dropWhile_eq_nil_iff.2 fun c hc => decide_eq_true fun h : c = '=' => hb (h ▸ hc)
  rw [spacedBehind, hdrop]

theorem spacedBehind_sign (hk : '=' ∉ k) (line v : Text) :
    spacedBehind line (k ++ '=' :: v) =
      if IsKey (line ++ k) then trimEnd (trimEnd k ++ Text.lit " = " ++ trimStart v)
      else trimEnd (k ++ '=' :: v) := by
  rw [spacedBehind, dropWhile_sign hk]
  dsimp only
  rw [takeWhile_sign hk]

theorem not_isBlankLine_cons {c : Char} (hc : isBlank c = false) (b : Text) :
    ¬ isBlankLine (c :: b) := by
  simp [isBlankLine, hc]

theorem isBlank_of_isQuote {q : Char} (hq : isQuote q) : isBlank q = false := by
  rcases isQuote_iff.1 hq with rfl | rfl <;> decide

/-- Once an equals sign is passed, no other one is spaced. -/
theorem spacedBehind_of_sign (hline : '=' ∈ line) (b : Text) : spacedBehind line b = trimEnd b := by
  by_cases hb : '=' ∈ b
  · obtain ⟨k, v, rfl, hk⟩ := List.eq_append_cons_of_mem hb
    rw [spacedBehind_sign hk, if_neg fun h => h.noSign (List.mem_append_left k hline)]
  · exact spacedBehind_noSign hb line

theorem getLast?_append_trimEnd (hb : ¬ isBlankLine b) (a : Text) :
    ∀ c ∈ (a ++ trimEnd b).getLast?, isBlank c = false := by
  rw [List.getLast?_append_of_ne_nil _ (mt (trimEnd_eq_nil_iff b).1 hb)]
  exact getLast?_trimEnd b

/-- Trimming leaves alone what a visible character ends or comes behind. -/
theorem trimEnd_cut (h : isBlankLine b → ∀ c ∈ a.getLast?, isBlank c = false) :
    trimEnd (a ++ b) = a ++ trimEnd b := by
  by_cases hb : isBlankLine b
  · exact trimEnd_append_self (h hb) b
  · rw [← trimEnd_append_trimEnd, trimEnd_eq_self (getLast?_append_trimEnd hb a)]

theorem trimEnd_sign (v : Text) : trimEnd ('=' :: v) = '=' :: trimEnd v := by
  refine trimEnd_cut (a := ['=']) fun _ c hc => ?_
  obtain rfl : '=' = c := Option.some.inj hc
  decide

/-- Of a whole line nothing stands in front. -/
theorem spacedBehind_nil (b : Text) : spacedBehind [] b = spacedAssignment (trimEnd b) := by
  by_cases hb : '=' ∈ b
  · obtain ⟨k, v, rfl, hk⟩ := List.eq_append_cons_of_mem hb
    have hsign := not_isBlankLine_cons (show isBlank '=' = false by decide) v
    have htrim : trimEnd (k ++ '=' :: v) = k ++ '=' :: trimEnd v := by
      rw [trimEnd_cut fun h => absurd h hsign, trimEnd_sign]
    have hvalue : trimEnd (trimEnd k ++ Text.lit " = " ++ trimStart (trimEnd v)) =
        trimEnd (trimEnd k ++ Text.lit " = " ++ trimStart v) := by
      rw [trimStart_trimEnd, trim, trimEnd_append_trimEnd]
    rw [spacedBehind_sign hk, List.nil_append, htrim]
    obtain ⟨hkey, heq⟩ | ⟨hkey, heq⟩ := spacedAssignment_append hk (trimEnd v)
    · rw [if_pos hkey, heq, hvalue]
    · rw [if_neg hkey, heq]
  · rw [spacedBehind_noSign hb]
    simp [spacedAssignment, notMem_trimEnd hb]

/-- What is in front of the equals sign stays, up to where white space begins that the sign comes
behind. -/
theorem spacedBehind_append (ha : '=' ∉ a)
    (h : isBlankLine (b.takeWhile (· ≠ '=')) → ∀ c ∈ a.getLast?, isBlank c = false) :
    spacedBehind line (a ++ b) = a ++ spacedBehind (line ++ a) b := by
  by_cases hb : '=' ∈ b
  · obtain ⟨k, v, rfl, hk⟩ := List.eq_append_cons_of_mem hb
    rw [takeWhile_sign hk] at h
    have hak : '=' ∉ a ++ k := fun hmem => (List.mem_append.1 hmem).elim ha hk
    have hsign (t : Text) : ¬ isBlankLine (k ++ '=' :: t) := by
      rw [isBlankLine_append, Bool.and_eq_true, not_and]
      exact fun _ => not_isBlankLine_cons (by decide) t
    have hspaced : ¬ isBlankLine (trimEnd k ++ Text.lit " = " ++ trimStart v) := by
      simp [isBlankLine_append, show isBlankLine (Text.lit " = ") = false by decide]
    rw [← List.append_assoc, spacedBehind_sign hak, spacedBehind_sign hk, List.append_assoc line]
    split
    · rw [trimEnd_cut h, List.append_assoc a, List.append_assoc a,
        trimEnd_cut fun h => absurd h hspaced]
    · rw [List.append_assoc, trimEnd_cut fun h => absurd h (hsign v)]
  · have hab : '=' ∉ a ++ b := fun hmem => (List.mem_append.1 hmem).elim ha hb
    rw [takeWhile_noSign hb] at h
    rw [spacedBehind_noSign hab, spacedBehind_noSign hb, trimEnd_cut h]

theorem spacedBehind_cons {c : Char} (hc : isBlank c = false) (h : c = '=' → ¬ IsKey line)
    (b : Text) : spacedBehind line (c :: b) = c :: spacedBehind (line ++ [c]) b := by
  have hlast : ∀ d ∈ [c].getLast?, isBlank d = false := by simpa using hc
  by_cases hsign : c = '='
  · subst hsign
    have hcons : spacedBehind line ('=' :: b) = trimEnd (['='] ++ b) := by
      have heq := spacedBehind_sign (k := []) (by simp) line b
      rwa [List.append_nil, if_neg (h rfl)] at heq
    rw [hcons, spacedBehind_of_sign (by simp), trimEnd_append_self hlast]
    rfl
  · exact spacedBehind_append (a := [c]) (by simpa using Ne.symm hsign) fun _ => hlast

theorem sign_notMem_of_blank (hw : isBlankLine w) : '=' ∉ w := fun hmem =>
  absurd (List.all_eq_true.1 hw _ hmem) (by decide)

/-- White space stays in front of anything but the equals sign that is spaced. -/
theorem spacedBehind_margin (hw : isBlankLine w) {c : Char} (hc : isBlank c = false)
    (h : c = '=' → ¬ IsKey (line ++ w)) (b : Text) :
    spacedBehind line (w ++ c :: b) = w ++ spacedBehind (line ++ w) (c :: b) := by
  have hnone := sign_notMem_of_blank hw
  by_cases hsign : c = '='
  · subst hsign
    have hvisible := not_isBlankLine_cons (show isBlank '=' = false by decide) b
    have hcons := spacedBehind_sign (k := []) (by simp) (line ++ w) b
    rw [List.append_nil, if_neg (h rfl), List.nil_append] at hcons
    rw [spacedBehind_sign hnone, if_neg (h rfl), hcons, trimEnd_cut fun h => absurd h hvisible]
  · refine spacedBehind_append hnone fun hblank => ?_
    rw [List.takeWhile_cons_of_pos (by simpa using hsign)] at hblank
    exact absurd hblank (not_isBlankLine_cons hc _)

/-- The first equals sign of a line is spaced, if it comes behind a key. -/
theorem spacedBehind_key (hw : isBlankLine w) (hu : isBlankLine u) (h : IsKey (line ++ w))
    (hb : ∀ c ∈ b.head?, isBlank c = false) :
    ∃ t, (t = [] ∨ t = [' ']) ∧ spacedBehind line (w ++ '=' :: (u ++ b)) =
      ' ' :: '=' :: (t ++ spacedBehind (line ++ (w ++ '=' :: u)) b) := by
  have hrest : spacedBehind (line ++ (w ++ '=' :: u)) b = trimEnd b :=
    spacedBehind_of_sign (by simp) b
  have hkey : trimEnd w = [] := (trimEnd_eq_nil_iff w).2 hw
  rw [spacedBehind_sign (sign_notMem_of_blank hw), if_pos h, hkey, hrest, trimStart_append hu]
  cases b with
  | nil => exact ⟨[], .inl rfl, by decide⟩
  | cons c b =>
    have hc : isBlank c = false := hb c rfl
    refine ⟨[' '], .inr rfl, ?_⟩
    rw [trimStart_eq_self hc, trimEnd_cut fun h => absurd h (not_isBlankLine_cons hc b)]
    rfl

theorem getLast?_behind {c d : Char} (h : (a ++ d :: x).getLast? = some c) (hne : c ≠ d) :
    x.getLast? = some c := by
  rw [List.getLast?_append_of_ne_nil _ (List.cons_ne_nil d x), List.getLast?_cons] at h
  cases hlast : x.getLast? with
  | none => rw [hlast] at h; exact absurd (Option.some.inj h).symm hne
  | some e => rw [hlast] at h; exact h

theorem not_isBlankLine_of_last {c : Char} (hx : x.getLast? = some c) (hc : isBlank c = false) :
    ¬ isBlankLine x := fun h => by
  rw [List.all_eq_true.1 h c (List.mem_of_getLast? hx)] at hc
  cases hc

/-- What ends in a visible character is printed apart from what comes behind it. -/
theorem spacedBehind_cut {c : Char} (ha : a.getLast? = some c) (hc : isBlank c = false)
    (hsign : c ≠ '=') (b : Text) :
    spacedBehind line (a ++ b) = spacedBehind line a ++ spacedBehind (line ++ a) b := by
  have hlast : ∀ d ∈ a.getLast?, isBlank d = false := by
    rintro d hd
    obtain rfl : c = d := Option.some.inj (ha.symm.trans hd)
    exact hc
  by_cases hmem : '=' ∈ a
  · obtain ⟨k, v, rfl, hk⟩ := List.eq_append_cons_of_mem hmem
    have hrest : spacedBehind (line ++ (k ++ '=' :: v)) b = trimEnd b :=
      spacedBehind_of_sign (by simp) b
    have hv := getLast?_behind ha hsign
    rw [hrest, List.append_assoc, List.cons_append, spacedBehind_sign hk, spacedBehind_sign hk]
    split
    · -- white space in front of the value is all that is trimmed at its start
      have hvisible : ¬ isBlankLine v := not_isBlankLine_of_last hv hc
      have hend : ∀ e ∈ (trimEnd k ++ Text.lit " = " ++ trimStart v).getLast?,
          isBlank e = false := by
        rw [List.getLast?_append, getLast?_trimStart hv hc]
        rintro e ⟨⟩
        exact hc
      rw [trimStart_append_of_visible hvisible, ← List.append_assoc, trimEnd_append_self hend,
        trimEnd_eq_self hend]
    · rw [trimEnd_eq_self hlast, ← List.cons_append, ← List.append_assoc, trimEnd_append_self hlast]
  · rw [spacedBehind_noSign hmem, trimEnd_eq_self hlast, spacedBehind_append hmem fun _ => hlast]

theorem mem_spacedBehind {c : Char} (h : c ∈ spacedBehind line b) : c ∈ b ∨ c = ' ' := by
  have htrim {s : Text} (hc : c ∈ trimEnd s) : c ∈ s := not_imp_not.1 notMem_trimEnd hc
  by_cases hb : '=' ∈ b
  · obtain ⟨k, v, rfl, hk⟩ := List.eq_append_cons_of_mem hb
    rw [spacedBehind_sign hk] at h
    split at h
    · rcases List.mem_append.1 (htrim h) with hc | hc
      · rcases List.mem_append.1 hc with hc | hc
        · exact .inl (List.mem_append_left _ (htrim hc))
        · have hsign : c = ' ' ∨ c = '=' ∨ c = ' ' := by simpa [Text.lit] using hc
          rcases hsign with rfl | rfl | rfl
          · exact .inr rfl
          · exact .inl hb
          · exact .inr rfl
      · have hv : c ∈ v := (List.dropWhile_suffix isBlank).mem hc
        exact .inl (List.mem_append_right _ (List.mem_cons_of_mem _ hv))
    · exact .inl (htrim h)
  · rw [spacedBehind_noSign hb] at h
    exact .inl (htrim h)

/-! ## The rest of a text -/

/-- What is printed for the lines of a text; `gap` says whether the line in front was blank. -/
def formedLines (gap : Bool) (x : Text) : Text :=
  terminated (printedFrom spacedAssignment gap (splitOn '\n' x))

/-- What is printed for the rest of a text, `line` being what stands in front of it on a line that
is not blank. -/
def formedBehind (line x : Text) : Text :=
  spacedBehind line (x.takeWhile (· ≠ '\n')) ++
    '\n' :: match x.dropWhile (· ≠ '\n') with
      | [] => []
      | _ :: z => formedLines false z

theorem forall_ne_break (ha : '\n' ∉ a) : ∀ c ∈ a, decide (c ≠ '\n') = true := fun c hc =>
  decide_eq_true fun h : c = '\n' => ha (h ▸ hc)

theorem newline_notMem_takeWhile (x : Text) : '\n' ∉ x.takeWhile (· ≠ '\n') := fun hmem => by
  simpa using List.mem_takeWhile_imp hmem

theorem formedBehind_append {t line' : Text} (ha : '\n' ∉ a)
    (h : spacedBehind line (a ++ x.takeWhile (· ≠ '\n')) =
      t ++ spacedBehind line' (x.takeWhile (· ≠ '\n'))) :
    formedBehind line (a ++ x) = t ++ formedBehind line' x := by
  have hall := forall_ne_break ha
  rw [formedBehind, List.takeWhile_append_of_pos hall, List.dropWhile_append_of_pos hall, h,
    List.append_assoc]
  rfl

theorem formedBehind_line (hb : '\n' ∉ b) (line : Text) :
    formedBehind line b = spacedBehind line b ++ ['\n'] := by
  have hall := forall_ne_break hb
  rw [formedBehind, List.takeWhile_eq_self_iff.2 hall, List.dropWhile_eq_nil_iff.2 hall]

theorem formedBehind_break (hb : '\n' ∉ b) (line z : Text) :
    formedBehind line (b ++ '\n' :: z) = spacedBehind line b ++ '\n' :: formedLines false z := by
  have hall := forall_ne_break hb
  rw [formedBehind, List.takeWhile_append_of_pos hall, List.dropWhile_append_of_pos hall]
  simp

theorem splitOn_eq_singleton (hb : '\n' ∉ b) : splitOn '\n' b = [b] :=
  splitOn_go_eq_singleton hb []

theorem splitOn_break (hb : '\n' ∉ b) (z : Text) :
    splitOn '\n' (b ++ '\n' :: z) = b :: splitOn '\n' z := by
  rw [splitOn_append, splitOn_eq_singleton hb]
  rfl

theorem isBlankLine_splitOn_iff : (∀ l ∈ splitOn '\n' x, isBlankLine l) ↔ isBlankLine x := by
  have hiff (s : Text) : isBlankLine s ↔ visible s = [] := by simp [visible, isBlankLine]
  simp only [hiff]
  rw [← visible_splitOn x, List.flatMap_eq_nil_iff]

theorem formedLines_blank (hx : isBlankLine x) (gap : Bool) : formedLines gap x = [] := by
  rw [formedLines, printedFrom_eq_nil_iff.2 (isBlankLine_splitOn_iff.2 hx)]
  rfl

/-- A blank line is printed in front of the next one that is not, if any. -/
theorem formedLines_gap (hb : isBlankLine b) (hn : '\n' ∉ b) (gap : Bool) (z : Text) :
    formedLines gap (b ++ '\n' :: z) = formedLines true z := by
  rw [formedLines, splitOn_break hn, printedFrom_blank hb]
  rfl

theorem formedLines_eq (h : ¬ isBlankLine (x.takeWhile (· ≠ '\n'))) (gap : Bool) :
    formedLines gap x = (if gap then ['\n'] else []) ++ formedBehind [] x := by
  have hgap (ls : List Text) : terminated ((if gap then [[]] else []) ++ ls) =
      (if gap then ['\n'] else []) ++ terminated ls := by
    cases gap <;> simp
  by_cases hmem : '\n' ∈ x
  · obtain ⟨b, z, rfl, hb⟩ := List.eq_append_cons_of_mem hmem
    rw [takeWhile_line hb (.inr rfl)] at h
    rw [formedLines, splitOn_break hb, printedFrom_line h, hgap, formedBehind_break hb,
      terminated_cons, spacedBehind_nil]
    rfl
  · rw [List.takeWhile_eq_self_iff.2 (forall_ne_break hmem)] at h
    rw [formedLines, splitOn_eq_singleton hmem, printedFrom_line h, hgap, formedBehind_line hmem,
      spacedBehind_nil]
    simp [printedFrom]

/-- Of several blank lines one is printed. -/
theorem formedLines_margin (hw : isBlankLine w) (hz : ¬ isBlankLine (z.takeWhile (· ≠ '\n')))
    (gap : Bool) : formedLines gap (w ++ '\n' :: z) = '\n' :: formedBehind [] z := by
  induction hn : w.length using Nat.strong_induction_on generalizing w gap with
  | _ n ih =>
  by_cases hmem : '\n' ∈ w
  · obtain ⟨b, t, rfl, hb⟩ := List.eq_append_cons_of_mem hmem
    rw [isBlankLine_append, Bool.and_eq_true, isBlankLine_cons] at hw
    rw [List.append_assoc, List.cons_append, formedLines_gap hw.1 hb]
    refine ih t.length ?_ hw.2.2 true rfl
    rw [← hn, List.length_append, List.length_cons]
    omega
  · rw [formedLines_gap hw hmem, formedLines_eq hz]
    rfl

theorem spacedBehind_blank (hb : isBlankLine b) (line : Text) : spacedBehind line b = [] := by
  rw [spacedBehind_noSign (sign_notMem_of_blank hb), (trimEnd_eq_nil_iff b).2 hb]

theorem formedBehind_blank (hx : isBlankLine x) (line : Text) : formedBehind line x = ['\n'] := by
  by_cases hmem : '\n' ∈ x
  · obtain ⟨b, z, rfl, hb⟩ := List.eq_append_cons_of_mem hmem
    rw [isBlankLine_append, Bool.and_eq_true, isBlankLine_cons] at hx
    rw [formedBehind_break hb, spacedBehind_blank hx.1, formedLines_blank hx.2.2]
    rfl
  · rw [formedBehind_line hmem, spacedBehind_blank hx]
    rfl

theorem formedBehind_cons {c : Char} (hc : isBlank c = false) (h : c = '=' → ¬ IsKey line)
    (x : Text) : formedBehind line (c :: x) = c :: formedBehind (line ++ [c]) x := by
  have hbreak : '\n' ∉ [c] := by
    rw [List.mem_singleton]
    rintro rfl
    cases hc
  exact formedBehind_append (a := [c]) (t := [c]) hbreak (spacedBehind_cons hc h _)

/-- A line is printed apart from those behind it. -/
theorem formedBehind_atBreak (ha : '\n' ∉ a) (hx : AtBreak x) (line line' : Text) :
    formedBehind line (a ++ x) = spacedBehind line a ++ formedBehind line' x := by
  have htake : x.takeWhile (· ≠ '\n') = [] := takeWhile_line (c := []) (by simp) hx
  refine formedBehind_append ha ?_
  rw [htake, List.append_nil, spacedBehind_blank (b := []) rfl, List.append_nil]

/-- White space at the end of a line is not printed, nor are blank lines but one. -/
theorem formedBehind_margin (hw : isBlankLine w) (hz : ¬ isBlankLine (z.takeWhile (· ≠ '\n')))
    (line : Text) :
    ∃ t, (t = [] ∨ t = ['\n']) ∧
      formedBehind line (w ++ '\n' :: z) = t ++ '\n' :: formedBehind [] z := by
  by_cases hmem : '\n' ∈ w
  · obtain ⟨b, t, rfl, hb⟩ := List.eq_append_cons_of_mem hmem
    rw [isBlankLine_append, Bool.and_eq_true, isBlankLine_cons] at hw
    refine ⟨['\n'], .inr rfl, ?_⟩
    rw [List.append_assoc, List.cons_append, formedBehind_break hb, spacedBehind_blank hw.1,
      formedLines_margin hw.2.2 hz]
    rfl
  · refine ⟨[], .inl rfl, ?_⟩
    rw [formedBehind_break hmem, spacedBehind_blank hw, formedLines_eq hz]
    rfl

/-- A text that is not blank begins with a line that is not, or with blank lines in front of one. -/
theorem exists_first_line (hx : ¬ isBlankLine x) :
    ¬ isBlankLine (x.takeWhile (· ≠ '\n')) ∨
      ∃ w z, x = w ++ '\n' :: z ∧ isBlankLine w ∧ ¬ isBlankLine (z.takeWhile (· ≠ '\n')) := by
  induction hn : x.length using Nat.strong_induction_on generalizing x with
  | _ n ih =>
  by_cases hmem : '\n' ∈ x
  · obtain ⟨b, t, rfl, hb⟩ := List.eq_append_cons_of_mem hmem
    rw [takeWhile_line hb (.inr rfl)]
    by_cases hblank : isBlankLine b
    · have ht : ¬ isBlankLine t := fun ht => hx (by
        rw [isBlankLine_append, hblank]
        exact isBlankLine_cons.2 ⟨by decide, ht⟩)
      have hlt : t.length < n := by
        rw [← hn, List.length_append, List.length_cons]
        omega
      rcases ih t.length hlt ht rfl with hfirst | ⟨w, z, rfl, hw, hz⟩
      · exact .inr ⟨b, t, rfl, hblank, hfirst⟩
      · refine .inr ⟨b ++ '\n' :: w, z, by simp, ?_, hz⟩
        rw [isBlankLine_append, hblank]
        exact isBlankLine_cons.2 ⟨by decide, hw⟩
    · exact .inl hblank
  · rw [List.takeWhile_eq_self_iff.2 (forall_ne_break hmem)]
    exact .inl hx

theorem first_line_append (h : ¬ isBlankLine (x.takeWhile (· ≠ '\n'))) (z : Text) :
    ¬ isBlankLine ((x ++ z).takeWhile (· ≠ '\n')) := by
  by_cases hmem : '\n' ∈ x
  · obtain ⟨b, t, rfl, hb⟩ := List.eq_append_cons_of_mem hmem
    rw [List.append_assoc, List.cons_append]
    rwa [takeWhile_line hb (.inr rfl)] at h ⊢
  · have hall := forall_ne_break hmem
    rw [List.takeWhile_eq_self_iff.2 hall] at h
    rw [List.takeWhile_append_of_pos hall, isBlankLine_append, Bool.and_eq_true]
    exact fun hblank => h hblank.1

/-- What is printed for a text that ends in a visible character is what is printed for it in front of
another text as well, up to the line feed at its end. -/
theorem formedBehind_cut {c : Char} (ha : a.getLast? = some c) (hc : isBlank c = false)
    (hsign : c ≠ '=') (line : Text) :
    ∃ k, formedBehind line a = k ++ ['\n'] ∧
      ∀ x, formedBehind line (a ++ x) = k ++ formedBehind (lineBehind line a) x := by
  have hbreak : c ≠ '\n' := by rintro rfl; cases hc
  induction hn : a.length using Nat.strong_induction_on generalizing a line with
  | _ n ih =>
  by_cases hmem : '\n' ∈ a
  · obtain ⟨b, t, rfl, hb⟩ := List.eq_append_cons_of_mem hmem
    have ht := getLast?_behind ha hbreak
    have hlt : t.length < n := by
      rw [← hn, List.length_append, List.length_cons]
      omega
    rw [formedBehind_break hb, lineBehind_break]
    -- the lines behind the first one are printed as those of a text
    obtain ⟨k, hk, hx⟩ : ∃ k, formedLines false t = k ++ ['\n'] ∧
        ∀ x, formedLines false (t ++ x) = k ++ formedBehind (lineBehind [] t) x := by
      rcases exists_first_line (not_isBlankLine_of_last ht hc) with hfirst | ⟨w, z, rfl, hw, hz⟩
      · obtain ⟨k, hk, hx⟩ := ih t.length hlt ht [] rfl
        refine ⟨k, (formedLines_eq hfirst false).trans hk, fun x => ?_⟩
        exact (formedLines_eq (first_line_append hfirst x) false).trans (hx x)
      · have hlength : z.length < n := by
          rw [List.length_append, List.length_cons] at hlt
          omega
        obtain ⟨k, hk, hx⟩ := ih z.length hlength (getLast?_behind ht hbreak) [] rfl
        refine ⟨'\n' :: k, ?_, fun x => ?_⟩
        · rw [formedLines_margin hw hz, hk]
          rfl
        · rw [List.append_assoc, List.cons_append, formedLines_margin hw (first_line_append hz x),
            hx, lineBehind_break]
          rfl
    refine ⟨spacedBehind line b ++ '\n' :: k, by rw [hk]; simp, fun x => ?_⟩
    rw [List.append_assoc, List.cons_append, formedBehind_break hb, hx]
    simp
  · refine ⟨spacedBehind line a, formedBehind_line hmem line, fun x => ?_⟩
    rw [lineBehind_of_notMem hmem]
    exact formedBehind_append hmem (spacedBehind_cut ha hc hsign _)

/-- The formatter prints the lines of a text, and one line feed if all of them are blank. -/
theorem normalizeToml_eq (s : Text) :
    normalizeToml s =
      if isBlankLine (unifyBreaks s) then ['\n'] else formedLines false (unifyBreaks s) := by
  have hprinted : formedLines false (unifyBreaks s) =
      terminated (printedFrom spacedAssignment false (lines s)) := by
    rw [formedLines, lines_eq]
  have hnil : printedFrom spacedAssignment false (lines s) = [] ↔ isBlankLine (unifyBreaks s) := by
    rw [printedFrom_eq_nil_iff, lines_eq, isBlankLine_splitOn_iff]
  rw [normalizeToml, tidies_spacedAssignment.normalize_eq, hprinted]
  exact if_congr hnil rfl rfl

/-! ## Returns -/

theorem newline_notMem_spacedAssignment {l : Text} (hl : '\n' ∉ l) :
    '\n' ∉ spacedAssignment l := by
  rcases spacedAssignment_cases l with h | ⟨k, v, rfl, h⟩
  · rwa [h]
  · have hk : '\n' ∉ trimEnd k := notMem_trimEnd (notMem_left hl)
    have hv : '\n' ∉ trimStart v :=
      notMem_trimStart (notMem_right hl ∘ List.mem_cons_of_mem _)
    have hsign : '\n' ∉ Text.lit " = " := by decide
    rw [h]
    exact notMem_trimEnd (by simp [hk, hv, hsign])

theorem dropReturn_eq_self {l : Text} (hl : l.getLast? ≠ some '\r') : dropReturn l = l := by
  unfold dropReturn
  split
  · next r heq =>
    rw [← List.head?_reverse, heq] at hl
    exact absurd rfl hl
  · rfl

/-- Lines, each with its line feed, are what is read again, and an empty line behind the last. -/
theorem lines_terminated {ls : List Text} (hls : ∀ l ∈ ls, '\n' ∉ l ∧ l.getLast? ≠ some '\r') :
    lines (terminated ls) = ls ++ [[]] := by
  have hsplit : splitOn '\n' (terminated ls) = ls ++ [[]] :=
    splitOn_terminated fun l hl => (hls l hl).1
  have hmap : ls.map dropReturn = ls := by
    have hid : ∀ l ∈ ls, dropReturn l = id l := fun l hl => dropReturn_eq_self (hls l hl).2
    rw [List.map_congr_left hid, List.map_id]
  rw [lines, hsplit, dropReturns]
  simp [hmap]

theorem unifyBreaks_terminated {ls : List Text}
    (hls : ∀ l ∈ ls, '\n' ∉ l ∧ l.getLast? ≠ some '\r') :
    unifyBreaks (terminated ls) = terminated ls := by
  have hsplit : splitOn '\n' (terminated ls) = ls ++ [[]] :=
    splitOn_terminated fun l hl => (hls l hl).1
  have hlines := lines_terminated hls
  rw [lines_eq, ← hsplit] at hlines
  rw [← joinWith_splitOn '\n' (unifyBreaks (terminated ls)), hlines, joinWith_splitOn]

theorem unifyBreaks_normalizeToml (s : Text) : unifyBreaks (normalizeToml s) = normalizeToml s := by
  have hls := newline_notMem_lines s
  rw [normalizeToml, tidies_spacedAssignment.normalize_eq]
  split
  · rfl
  · refine unifyBreaks_terminated fun k hk => ?_
    rcases mem_printedFrom hk with rfl | ⟨l, hl, hblank, rfl⟩
    · exact ⟨by simp, by simp⟩
    · refine ⟨newline_notMem_spacedAssignment (notMem_trimEnd (hls l hl)), ?_⟩
      obtain ⟨b, c, heq, hc⟩ := tidies_spacedAssignment.visible l hblank
      rw [heq, List.getLast?_append_of_ne_nil _ (by simp)]
      rintro ⟨⟩
      cases hc

end Toml

end ConfigCare
