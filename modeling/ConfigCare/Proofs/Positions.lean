import ConfigCare.Proofs.Margins
import ConfigCare.Proofs.Searching
import ConfigCare.Secret.Scan

/-! Lines and columns. The line of an offset is one of the lines of the text, the offset is what comes
before that line and the part of the line in front of it, and later offsets have later positions. So
the position of a finding leads back to the place where it was found. -/

namespace ConfigCare

namespace Text

/-! ## Starts of lines -/

theorem lastStart_append (start offset : Nat) (a b : Text) :
    lastStart start offset (a ++ b) = lastStart (lastStart start offset a) (offset + a.length) b := by
  induction a generalizing start offset with
  | nil => rfl
  | cons c cs ih =>
    simp only [List.cons_append, lastStart, List.length_cons]
    rw [ih, Nat.add_assoc, Nat.add_comm 1]

theorem lastStart_of_notMem {l : Text} (h : '\n' ∉ l) (start offset : Nat) :
    lastStart start offset l = start := by
  induction l generalizing offset with
  | nil => rfl
  | cons c cs ih =>
    rw [List.mem_cons, not_or] at h
    rw [lastStart, if_neg (Ne.symm h.1), ih h.2]

theorem lastStart_terminated {ls : List Text} (h : ∀ l ∈ ls, '\n' ∉ l) (offset : Nat) :
    lastStart offset offset (terminated ls) = offset + (terminated ls).length := by
  induction ls generalizing offset with
  | nil => rfl
  | cons l ls ih =>
    have hline : lastStart offset offset (l ++ ['\n']) = offset + (l ++ ['\n']).length := by
      rw [lastStart_append, lastStart_of_notMem (h l (by simp)), List.length_append, ← Nat.add_assoc]
      rfl
    rw [terminated_line, lastStart_append, hline, ih fun k hk => h k (by simp [hk])]
    simp only [List.length_append]
    omega

theorem count_terminated {ls : List Text} (h : ∀ l ∈ ls, '\n' ∉ l) :
    (terminated ls).count '\n' = ls.length := by
  induction ls with
  | nil => rfl
  | cons l ls ih =>
    rw [terminated_cons, List.count_append, List.count_cons_self,
      List.count_eq_zero_of_not_mem (h l (by simp)), ih fun k hk => h k (by simp [hk]),
      Nat.zero_add, List.length_cons]

/-! ## The line of an offset -/

/-- An offset of a text: the lines before its line, and its line in front of it and behind. -/
structure Placed (s : Text) (n : Nat) (before : List Text) (head tail : Text) (after : List Text) :
    Prop where
  lines : splitOn '\n' s = before ++ (head ++ tail) :: after
  front : s.take n = terminated before ++ head
  head : '\n' ∉ head
  tail : tail = (s.drop n).takeWhile (· ≠ '\n')

/-- The first line of a text reaches to its first line feed. -/
theorem exists_splitOn (sep : Char) (s : Text) :
    ∃ ls, splitOn sep s = s.takeWhile (· ≠ sep) :: ls := by
  induction s with
  | nil => exact ⟨[], rfl⟩
  | cons c cs ih =>
    obtain ⟨ls, hls⟩ := ih
    by_cases hc : c = sep
    · refine ⟨splitOn sep cs, ?_⟩
      rw [← List.nil_append (c :: cs), hc, splitOn_append]
      simp [splitOn, splitOn.go]
    · obtain ⟨l, ls', hcs, hsplit⟩ := splitOn_append_head (a := [c]) (by simpa using Ne.symm hc) cs
      rw [hls, List.cons.injEq] at hcs
      refine ⟨ls', ?_⟩
      rw [← List.singleton_append, hsplit, ← hcs.1]
      simp [hc]

theorem exists_placed (s : Text) (n : Nat) : ∃ before head tail after,
    Placed s n before head tail after := by
  obtain ⟨before, head, hsplit, -⟩ :=
    splitOn_append_tail (List.not_mem_nil : '\n' ∉ ([] : Text)) (s.take n)
  have hnone : ∀ l ∈ before ++ [head], '\n' ∉ l := hsplit ▸ not_mem_of_mem_splitOn
  have hhead : '\n' ∉ head := hnone head (by simp)
  have hfront : s.take n = terminated before ++ head := by
    refine List.append_cancel_right (?_ : _ ++ ['\n'] = _ ++ ['\n'])
    rw [← terminated_splitOn, hsplit, terminated_append, terminated_cons, terminated_nil,
      List.append_assoc]
  obtain ⟨tail, after, htail, hline⟩ := splitOn_append_head hhead (s.drop n)
  obtain ⟨ls, hls⟩ := exists_splitOn '\n' (s.drop n)
  refine ⟨before, head, tail, after, ?_, hfront, hhead, ?_⟩
  · rw [← List.take_append_drop n s, hfront, List.append_assoc,
      splitOn_terminated_append fun l hl => hnone l (by simp [hl]), hline]
  · rw [hls, List.cons.injEq] at htail
    exact htail.1.symm

namespace Placed

variable {s : Text} {n : Nat} {before after : List Text} {head tail : Text}

theorem notMem (h : Placed s n before head tail after) : ∀ l ∈ before, '\n' ∉ l :=
  fun l hl => not_mem_of_mem_splitOn l (h.lines ▸ List.mem_append_left _ hl)

theorem lineStart_eq (h : Placed s n before head tail after) :
    lineStart s n = (terminated before).length := by
  rw [lineStart, h.front, lastStart_append, lastStart_terminated h.notMem,
    lastStart_of_notMem h.head, Nat.zero_add]

theorem offset_eq (h : Placed s n before head tail after) (hn : n ≤ s.length) :
    n = (terminated before).length + head.length := by
  rw [← List.length_append, ← h.front, List.length_take_of_le hn]

theorem position_eq (h : Placed s n before head tail after) (hn : n ≤ s.length) :
    position s n = ⟨before.length + 1, head.length + 1⟩ := by
  have hoffset := h.offset_eq hn
  rw [position, h.lineStart_eq, h.front, List.count_append, count_terminated h.notMem,
    List.count_eq_zero_of_not_mem h.head, Position.mk.injEq]
  omega

theorem lineAt_eq (h : Placed s n before head tail after) :
    lineAt s n = trim (head ++ tail) := by
  simp only [lineAt]
  rw [h.lineStart_eq, h.front, List.drop_left, h.tail]

end Placed

/-- A later offset has a later position, first by line and then by column. -/
theorem position_lt {s : Text} {m n : Nat} (hmn : m < n) (hn : n ≤ s.length) :
    (position s m).line < (position s n).line ∨
      (position s m).line = (position s n).line ∧
        (position s m).column < (position s n).column := by
  obtain ⟨before, head, tail, after, hm⟩ := exists_placed s m
  obtain ⟨before', head', tail', after', hn'⟩ := exists_placed s n
  have hle : (position s m).line ≤ (position s n).line :=
    Nat.succ_le_succ ((List.take_sublist_take_left (Nat.le_of_lt hmn)).count_le '\n')
  rcases Nat.lt_or_eq_of_le hle with hlt | heq
  · exact .inl hlt
  · -- on one line, so behind the same lines
    rw [hm.position_eq (by omega), hn'.position_eq hn] at heq ⊢
    have hsame : before = before' :=
      (List.append_inj (hm.lines.symm.trans hn'.lines) (Nat.succ.inj heq)).1
    have hoffset := hm.offset_eq (by omega)
    have hoffset' := hn'.offset_eq hn
    rw [← hsame] at hoffset'
    exact .inr ⟨heq, by simp only; omega⟩

theorem length_terminated (ls : List Text) :
    (terminated ls).length = ls.foldr (fun l n => l.length + 1 + n) 0 := by
  induction ls with
  | nil => rfl
  | cons l ls ih => rw [terminated_line, List.length_append, ih, List.length_append]; rfl

/-- The position of an offset, read back in the lines of the text. -/
theorem position_back {s : Text} {n : Nat} (hn : n ≤ s.length) :
    let ls := splitOn '\n' s
    let p := position s n
    ∃ l, ls[p.line - 1]? = some l ∧ 1 ≤ p.line ∧ p.line ≤ ls.length ∧
      1 ≤ p.column ∧ p.column ≤ l.length + 1 ∧
      (ls.take (p.line - 1)).foldr (fun l n => l.length + 1 + n) 0 + (p.column - 1) = n ∧
      lineAt s n = trim l := by
  intro ls p
  obtain ⟨before, head, tail, after, h⟩ := exists_placed s n
  have hp : p = ⟨before.length + 1, head.length + 1⟩ := h.position_eq hn
  have hls : ls = before ++ (head ++ tail) :: after := h.lines
  rw [hp, hls]
  refine ⟨head ++ tail, by simp, by simp, by simp, by simp, by simp, ?_, h.lineAt_eq⟩
  rw [Nat.add_sub_cancel, List.take_left, ← length_terminated, Nat.add_sub_cancel]
  exact (h.offset_eq hn).symm

theorem position_inj {s : Text} {m n : Nat} (hm : m ≤ s.length) (hn : n ≤ s.length)
    (h : position s m = position s n) : m = n := by
  obtain ⟨-, -, -, -, -, -, hm', -⟩ := position_back hm
  obtain ⟨-, -, -, -, -, -, hn', -⟩ := position_back hn
  rw [← hm', ← hn', h]

end Text

namespace Secret

open Text

/-- Whether a finding tells where it was found: its line is one of the lines, which it shows trimmed,
its column lies in that line, and both lead to the offset, where its secret stands. -/
structure Finding.LeadsBack (content : Text) (n : Nat) (f : Finding) : Prop where
  line : 1 ≤ f.line ∧ f.line ≤ (splitOn '\n' content).length
  column : ∃ l, (splitOn '\n' content)[f.line - 1]? = some l ∧
    1 ≤ f.column ∧ f.column ≤ l.length + 1 ∧ f.context = trim l
  offset : ((splitOn '\n' content).take (f.line - 1)).foldr (fun l n => l.length + 1 + n) 0 +
    (f.column - 1) = n
  secret : (content.drop n).take f.secret.length = f.secret

theorem leadsBack_finding (r : CompiledRule) {content : Text} (file : Text) {s : Regex.Span}
    (hs : s ∈ r.pattern.spans content) :
    (r.finding content file s).LeadsBack content s.offset := by
  obtain ⟨l, hl, hline, hlines, hcolumn, hlength, hoffset, hcontext⟩ :=
    position_back (Nat.le_of_add_right_le (Regex.Pattern.finish_le_of_mem_spans hs))
  exact ⟨⟨hline, hlines⟩, ⟨l, hl, hcolumn, hlength, hcontext⟩, hoffset,
    (List.prefix_iff_eq_take.1 (Regex.Pattern.prefix_of_mem_spans hs)).symm⟩

theorem mem_scan_iff {rules : List CompiledRule} {content file : Text} {f : Finding} :
    f ∈ scan rules content file ↔ ∃ r ∈ rules, ∃ s ∈ r.pattern.spans content,
      r.counts content s ∧ f = r.finding content file s := by
  simp only [scan, CompiledRule.scan, List.mem_flatMap, List.mem_map, List.mem_filter]
  grind

/-- The position of every finding leads back to the offset where it was found, and positions are in
the order of the offsets. -/
theorem findings_lead_back (rules : List CompiledRule) (content file : Text) :
    (∀ f ∈ scan rules content file, ∃ r ∈ rules, ∃ s ∈ r.pattern.spans content,
      f = r.finding content file s) ∧
    (∀ r ∈ rules, ∀ s ∈ r.pattern.spans content,
      (r.finding content file s).LeadsBack content s.offset) ∧
    (∀ m n, m < n → n ≤ content.length →
      (position content m).line < (position content n).line ∨
        (position content m).line = (position content n).line ∧
          (position content m).column < (position content n).column) ∧
    ∀ m n, m ≤ content.length → n ≤ content.length → position content m = position content n →
      m = n := by
  refine ⟨fun f hf => ?_, fun r _ s hs => leadsBack_finding r file hs,
    fun m n => position_lt, fun m n => position_inj⟩
  obtain ⟨r, hr, s, hs, -, hfinding⟩ := mem_scan_iff.1 hf
  exact ⟨r, hr, s, hs, hfinding⟩

/-- A match may begin with the line feed behind an empty line. -/
theorem findings_lead_back_of_line_feed :
    let rules := (compile [⟨lit "Token", lit "\\n +x", none, []⟩]).toOption.getD []
    let content := lit "a\n\n  x\n"
    ∃ f ∈ scan rules content (lit "a.env"), f.line = 2 ∧ f.column = 1 ∧ f.LeadsBack content 2 ∧
      (position content 2).line < (position content 3).line := by
  intro rules content
  obtain ⟨hspan, hback, hlt, -⟩ := findings_lead_back rules content (lit "a.env")
  have hscan : (scan rules content (lit "a.env")).map (fun f => (f.line, f.column)) = [(2, 1)] := by
    decide +kernel
  obtain ⟨f, hf, hposition⟩ := List.mem_map.1 (hscan ▸ List.mem_singleton_self (2, 1))
  obtain ⟨hline, hcolumn⟩ := Prod.mk.inj hposition
  obtain ⟨r, hr, s, hs, rfl⟩ := hspan f hf
  have h := hback r hr s hs
  have hoffset := h.offset
  rw [hline, hcolumn] at hoffset
  have htwo : s.offset = 2 := hoffset.symm.trans (by decide)
  refine ⟨_, hf, hline, hcolumn, htwo ▸ h, ?_⟩
  rcases hlt 2 3 (by decide) (by decide) with hless | ⟨heq, -⟩
  · exact hless
  · exact absurd heq (by decide)

end Secret

end ConfigCare
