import Mathlib.Data.List.Triplewise
import ConfigCare.Proofs.ScanRuns

/-! The two views of a list of findings: the findings of each file, and how often each rule occurs. Both
are made finding by finding, so each is told here for the findings so far, with the next one put behind
them. Grouping is a permutation; it changes nothing where every file has its findings in one place, as it
has in the result of a search, whose files are shown by different paths. -/

namespace ConfigCare

/-! ## Values in one place -/

section

variable {α β γ : Type} {x : α} {xs : List α} {key : γ → α}

/-- Between two of the same values stands no other one. -/
def Contiguous (ks : List α) : Prop := ks.Triplewise fun a b c => a = c → b = a

theorem contiguous_cons : Contiguous (x :: xs) ↔
    (xs.Pairwise fun b c => x = c → b = x) ∧ Contiguous xs := List.triplewise_cons

/-- Where items follow one another key by key, no keys are mixed. -/
theorem contiguous_flatMap {ks : List β} {name : β → α} (hks : (ks.map name).Nodup)
    {group : β → List γ} (h : ∀ k ∈ ks, ∀ x ∈ group k, key x = name k) :
    Contiguous ((ks.flatMap group).map key) := by
  induction ks with
  | nil => exact .nil
  | cons k ks ih =>
    rw [List.map_cons, List.nodup_cons] at hks
    rw [List.forall_mem_cons] at h
    obtain ⟨hk, hrest⟩ := h
    have hfirst : ∀ a ∈ (group k).map key, a = name k := List.forall_mem_map.2 hk
    have hothers : ∀ a ∈ (ks.flatMap group).map key, a ≠ name k := by
      rintro a ha rfl
      obtain ⟨x, hx, hname⟩ := List.mem_map.1 ha
      obtain ⟨k', hk', hx⟩ := List.mem_flatMap.1 hx
      exact hks.1 (List.mem_map.2 ⟨k', hk', (hrest k' hk' x hx).symm.trans hname⟩)
    rw [List.flatMap_cons, List.map_append, Contiguous, List.triplewise_append]
    refine ⟨?_, ih hks.2 hrest, fun a ha => ?_, fun c hc => ?_⟩
    · generalize (group k).map key = as at hfirst
      induction as with
      | nil => exact .nil
      | cons a as ih =>
        rw [List.forall_mem_cons] at hfirst
        refine .cons (List.pairwise_of_forall_mem_list fun b hb c _ _ => ?_) (ih hfirst.2)
        rw [hfirst.1, hfirst.2 b hb]
    · exact List.pairwise_of_forall_mem_list fun b _ c hc hac =>
        absurd (hac.symm.trans (hfirst a ha)) (hothers c hc)
    · exact List.pairwise_of_forall_mem_list fun a ha b _ hac =>
        absurd (hac.symm.trans (hfirst a ha)) (hothers c hc)

end

/-! ## Values and their first occurrences -/

section

variable {α β γ : Type} [DecidableEq α] {x : α} {xs : List α}

/-- The values of a list, each of them once, in the order in which they first occur. -/
def firstSeen : List α → List α
  | [] => []
  | x :: xs => x :: (firstSeen xs).filter (· ≠ x)

@[simp] theorem mem_firstSeen : x ∈ firstSeen xs ↔ x ∈ xs := by
  induction xs with
  | nil => rfl
  | cons y ys ih =>
    rw [firstSeen, List.mem_cons, List.mem_filter, ih, List.mem_cons, decide_eq_true_iff]
    tauto

theorem nodup_firstSeen (xs : List α) : (firstSeen xs).Nodup := by
  induction xs with
  | nil => exact .nil
  | cons y ys ih => exact List.nodup_cons.2 ⟨by simp, ih.filter _⟩

theorem firstSeen_concat (xs : List α) (x : α) :
    firstSeen (xs ++ [x]) = if x ∈ firstSeen xs then firstSeen xs else firstSeen xs ++ [x] := by
  induction xs with
  | nil => rfl
  | cons y ys ih =>
    rw [List.cons_append, firstSeen, ih]
    by_cases hy : x = y
    · subst hy
      by_cases hx : x ∈ firstSeen ys <;> simp [firstSeen, hx]
    · by_cases hx : x ∈ firstSeen ys
      · simp [firstSeen, hx]
      · have hx' : x ∉ ys := fun h => hx (mem_firstSeen.2 h)
        simp [firstSeen, hx', hy]

/-- Changes the value of a key. A key that is not there comes last, with the change of an empty value. -/
def adjust (empty : β) (change : β → β) (key : α) : List (α × β) → List (α × β)
  | [] => [(key, change empty)]
  | (k, v) :: rest =>
    if k = key then (k, change v) :: rest else (k, v) :: adjust empty change key rest

theorem adjust_map {ks : List α} (hks : ks.Nodup) {empty : β} (change : β → β) {key : α} {g : α → β}
    (hnew : key ∉ ks → g key = empty) :
    adjust empty change key (ks.map fun k => (k, g k)) =
      (if key ∈ ks then ks else ks ++ [key]).map fun k => (k, if k = key then change (g k) else g k) := by
  induction ks with
  | nil => simp [adjust, hnew]
  | cons k ks ih =>
    rw [List.nodup_cons] at hks
    rw [List.map_cons, adjust]
    by_cases hk : k = key
    · subst hk
      have hrest : ∀ k' ∈ ks, (k', g k') = (k', if k' = k then change (g k') else g k') :=
        fun k' hk' => by rw [if_neg]; rintro rfl; exact hks.1 hk'
      simp [List.map_congr_left hrest]
    · rw [if_neg hk, ih hks.2 fun h => hnew (by simp [h, Ne.symm hk])]
      by_cases hmem : key ∈ ks <;> simp [hmem, hk, Ne.symm hk]

/-- Where every item changes the value of its key, the keys stand in the order of their first items, each
with the value of all its items. -/
theorem foldl_adjust (key : γ → α) (value : List γ → β) (change : γ → β → β)
    (hconcat : ∀ xs x, value (xs ++ [x]) = change x (value xs)) (xs : List γ) :
    xs.foldl (fun vs x => adjust (value []) (change x) (key x) vs) [] =
      (firstSeen (xs.map key)).map fun k => (k, value (xs.filter (key · = k))) := by
  induction xs using List.reverseRecOn with
  | nil => rfl
  | append_singleton xs x ih =>
    have hnew : key x ∉ firstSeen (xs.map key) → value (xs.filter (key · = key x)) = value [] := by
      intro hx
      congr 1
      refine List.filter_eq_nil_iff.2 fun y hy => ?_
      have hmem := fun h : key y = key x => hx (mem_firstSeen.2 (h ▸ List.mem_map_of_mem hy))
      simpa using hmem
    rw [List.foldl_append, List.foldl_cons, List.foldl_nil, ih,
      adjust_map (nodup_firstSeen _) (change x) hnew, List.map_append, List.map_singleton,
      firstSeen_concat]
    refine List.map_congr_left fun k _ => ?_
    by_cases hk : k = key x
    · subst hk
      simp [hconcat]
    · simp [hk, Ne.symm hk]

/-! ## Groups -/

variable {key : γ → α} {items : List γ}

/-- Groups under different keys, put together, are the items in some order. -/
theorem perm_flatMap_filter {ks : List α} (hks : ks.Nodup) (hall : ∀ x ∈ items, key x ∈ ks) :
    (ks.flatMap fun k => items.filter (key · = k)).Perm items := by
  induction ks generalizing items with
  | nil => rw [List.eq_nil_iff_forall_not_mem.2 fun x hx => List.not_mem_nil (hall x hx)]; exact .nil
  | cons k ks ih =>
    rw [List.nodup_cons] at hks
    rw [List.flatMap_cons]
    have hothers : ∀ k' ∈ ks, items.filter (key · = k') =
        (items.filter (key · ≠ k)).filter (key · = k') := by
      intro k' hk'
      rw [List.filter_filter]
      refine List.filter_congr fun x _ => ?_
      have hne : k' ≠ k := fun h => hks.1 (h ▸ hk')
      by_cases hx : key x = k' <;> simp [hx, hne]
    rw [List.flatMap_congr hothers]
    refine ((ih hks.2 fun x hx => ?_).append_left _).trans ?_
    · rw [List.mem_filter, decide_eq_true_iff] at hx
      exact (List.mem_cons.1 (hall x hx.1)).resolve_left hx.2
    · simpa using List.filter_append_perm (fun x => decide (key x = k)) items

/-- Where no keys are mixed, the groups follow one another as the items do. -/
theorem flatMap_filter_of_contiguous (h : Contiguous (items.map key)) :
    ((firstSeen (items.map key)).flatMap fun k => items.filter (key · = k)) = items := by
  induction items with
  | nil => rfl
  | cons x xs ih =>
    rw [List.map_cons, contiguous_cons] at h
    have hothers (ks : List α) (hks : key x ∉ ks) :
        (ks.flatMap fun k => (x :: xs).filter (key · = k)) = ks.flatMap fun k => xs.filter (key · = k) :=
      List.flatMap_congr fun k hk => by
        rw [List.filter_cons_of_neg]
        simpa using fun hx : key x = k => hks (hx ▸ hk)
    have hrest := ih h.2
    rw [List.map_cons, firstSeen, List.flatMap_cons, hothers _ (by simp),
      List.filter_cons_of_pos (by simp), List.cons_append]
    congr 1
    by_cases hx : key x ∈ xs.map key
    · cases xs with
      | nil => cases hx
      | cons y ys =>
        -- the next item has the key of the first one, as one behind it does
        have hy : key y = key x := by
          rw [List.map_cons, List.pairwise_cons] at h
          exact (List.mem_cons.1 hx).elim Eq.symm fun hys => h.1.1 _ hys rfl
        rw [List.map_cons, firstSeen, List.flatMap_cons, hy] at hrest
        have hkeys : (firstSeen ((y :: ys).map key)).filter (· ≠ key x) =
            (firstSeen (ys.map key)).filter (· ≠ key x) := by
          rw [List.map_cons, firstSeen, hy, List.filter_cons_of_neg (by simp), List.filter_filter]
          simp
        rw [hkeys]
        exact hrest
    · have hnone : xs.filter (key · = key x) = [] := List.filter_eq_nil_iff.2 fun y hy => by
        have hne : key y ≠ key x := fun h => hx (h ▸ List.mem_map_of_mem hy)
        simpa using hne
      have hall : (firstSeen (xs.map key)).filter (· ≠ key x) = firstSeen (xs.map key) :=
        List.filter_eq_self.2 fun k hk => by
          have hne : k ≠ key x := fun h => hx (h ▸ mem_firstSeen.1 hk)
          simpa using hne
      rw [hnone, hall, List.nil_append]
      exact hrest

/-- The groups follow one another as the items do only where no keys are mixed. -/
theorem flatMap_filter_eq_iff :
    ((firstSeen (items.map key)).flatMap fun k => items.filter (key · = k)) = items ↔
      Contiguous (items.map key) := by
  refine ⟨fun h => ?_, flatMap_filter_of_contiguous⟩
  rw [← h]
  have hdistinct : ((firstSeen (items.map key)).map id).Nodup := by
    rw [List.map_id]
    exact nodup_firstSeen _
  refine contiguous_flatMap hdistinct fun k _ x hx => ?_
  simpa using (List.mem_filter.1 hx).2

end

namespace Secret

variable {e : Text × Nat} {es : List (Text × Nat)} {fs : List Finding}

/-! ## Groups and counts of findings -/

theorem add_eq_adjust (groups : List (Text × List Finding)) (f : Finding) :
    groupByFile.add groups f = adjust [] (· ++ [f]) f.file groups := by
  induction groups with
  | nil => rfl
  | cons g groups ih =>
    obtain ⟨file, fs⟩ := g
    rw [groupByFile.add, adjust, ih]

theorem tally_add_eq_adjust (name : Text) (counts : List (Text × Nat)) :
    tally.add name counts = adjust 0 (· + 1) name counts := by
  induction counts with
  | nil => rfl
  | cons c counts ih =>
    obtain ⟨rule, n⟩ := c
    rw [tally.add, adjust, ih]

/-- Every file has one group, of the findings in it. -/
theorem groupByFile_eq (fs : List Finding) :
    groupByFile fs =
      (firstSeen (fs.map (·.file))).map fun file => (file, fs.filter (·.file = file)) := by
  have hadd : groupByFile.add = fun groups f => adjust [] (· ++ [f]) f.file groups :=
    funext fun groups => funext fun f => add_eq_adjust groups f
  rw [groupByFile, hadd]
  exact foldl_adjust (·.file) id (fun f group => group ++ [f]) (fun _ _ => rfl) fs

/-- Every rule is counted once, with the findings of it. -/
theorem tally_eq (fs : List Finding) :
    tally fs = (firstSeen (fs.map (·.rule))).map fun rule => (rule, fs.countP (·.rule = rule)) := by
  simp only [tally, tally_add_eq_adjust, List.countP_eq_length_filter]
  exact foldl_adjust (·.rule) List.length (fun _ n => n + 1) (fun _ _ => List.length_append) fs

theorem perm_groupByFile (fs : List Finding) : ((groupByFile fs).flatMap (·.2)).Perm fs := by
  rw [groupByFile_eq, List.flatMap_map]
  exact perm_flatMap_filter (nodup_firstSeen _) fun f hf => mem_firstSeen.2 (List.mem_map_of_mem hf)

theorem groupByFile_in_order_iff :
    (groupByFile fs).flatMap (·.2) = fs ↔ Contiguous (fs.map (·.file)) := by
  rw [groupByFile_eq, List.flatMap_map]
  exact flatMap_filter_eq_iff

theorem sum_tally (fs : List Finding) : ((tally fs).map (·.2)).sum = fs.length := by
  have hperm := perm_flatMap_filter (nodup_firstSeen (fs.map (·.rule))) fun f (hf : f ∈ fs) =>
    mem_firstSeen.2 (List.mem_map_of_mem hf)
  rw [tally_eq, List.map_map, ← hperm.length_eq, List.length_flatMap]
  simp only [List.countP_eq_length_filter]
  rfl

/-! ## The order of the counts -/

theorem insertByCount_perm (e : Text × Nat) (es : List (Text × Nat)) :
    (insertByCount e es).Perm (e :: es) := by
  induction es with
  | nil => exact .refl _
  | cons f rest ih =>
    unfold insertByCount
    split
    · exact (ih.cons f).trans (.swap e f rest)
    · exact .refl _

theorem pairwise_insertByCount (h : es.Pairwise fun a b => b.2 ≤ a.2) :
    (insertByCount e es).Pairwise fun a b => b.2 ≤ a.2 := by
  induction es with
  | nil => exact List.pairwise_singleton _ _
  | cons f rest ih =>
    rw [List.pairwise_cons] at h
    unfold insertByCount
    split
    · next hle =>
      refine List.pairwise_cons.2 ⟨fun g hg => ?_, ih h.2⟩
      rcases List.mem_cons.1 ((insertByCount_perm e rest).mem_iff.1 hg) with rfl | hg
      · exact hle
      · exact h.1 g hg
    · next hlt =>
      refine List.pairwise_cons.2 ⟨fun g hg => ?_, List.pairwise_cons.2 h⟩
      rcases List.mem_cons.1 hg with rfl | hg
      · omega
      · have := h.1 g hg
        omega

/-- Of the entries of one count, a new one comes last. -/
theorem filter_insertByCount (h : es.Pairwise fun a b => b.2 ≤ a.2) (n : Nat) :
    (insertByCount e es).filter (·.2 = n) = (es ++ [e]).filter (·.2 = n) := by
  induction es with
  | nil => rfl
  | cons f rest ih =>
    rw [List.pairwise_cons] at h
    unfold insertByCount
    split
    · rw [List.cons_append, List.filter_cons, List.filter_cons, ih h.2]
    · next hlt =>
      by_cases he : e.2 = n
      · have hnone : (f :: rest).filter (·.2 = n) = [] := List.filter_eq_nil_iff.2 fun g hg => by
          have hg : g.2 ≤ f.2 := (List.mem_cons.1 hg).elim (fun h => h ▸ le_rfl) (h.1 g)
          simp only [decide_eq_true_eq]
          omega
        rw [List.filter_append, List.filter_cons_of_pos (by simpa using he), hnone]
        simp [he]
      · rw [List.filter_cons_of_neg (by simpa using he), List.filter_append]
        simp [he]

/-- Entries are put into the order of their counts; those of one count stay in their order. -/
theorem foldl_insertByCount (es : List (Text × Nat)) :
    let sorted := es.foldl (fun sorted e => insertByCount e sorted) []
    sorted.Perm es ∧ sorted.Pairwise (fun a b => b.2 ≤ a.2) ∧
      ∀ n, sorted.filter (·.2 = n) = es.filter (·.2 = n) := by
  induction es using List.reverseRecOn with
  | nil => exact ⟨.refl _, .nil, fun _ => rfl⟩
  | append_singleton es e ih =>
    obtain ⟨hperm, hsorted, hstable⟩ := ih
    simp only [List.foldl_append, List.foldl_cons, List.foldl_nil]
    refine ⟨?_, pairwise_insertByCount hsorted, fun n => ?_⟩
    · exact (insertByCount_perm e _).trans ((hperm.cons e).trans (List.perm_append_singleton e es).symm)
    · rw [filter_insertByCount hsorted, List.filter_append, hstable, ← List.filter_append]

end Secret

namespace Text

/-- What is joined can be split again if the separator is in no part. -/
theorem splitOn_joinWith {sep : Char} {ps : List Text} (hne : ps ≠ []) (h : ∀ p ∈ ps, sep ∉ p) :
    splitOn sep (joinWith [sep] ps) = ps := by
  induction ps with
  | nil => exact absurd rfl hne
  | cons p ps ih =>
    rw [List.forall_mem_cons] at h
    have hp : splitOn sep p = [p] := splitOn_go_eq_singleton h.1 []
    by_cases hps : ps = []
    · subst hps
      exact hp
    · rw [joinWith_cons _ _ hps, List.append_assoc, List.singleton_append, splitOn_append, hp,
        ih hps h.2]
      rfl

end Text

namespace Files

variable {tree : Entry} {place : List Text} {found : Collected} {s : Selection}

/-- No two files that were found are shown by the same path. -/
theorem nodup_relative (hproper : tree.Proper) (hnamed : tree.Named)
    (hfound : collect s place tree = .ok found) : (found.candidates.map Candidate.relative).Nodup := by
  have hsound := sound_collect hproper hfound
  obtain ⟨n, rfl⟩ | ⟨content, -, rfl⟩ | ⟨es, hfind, rfl⟩ := collect_eq_ok hfound
  · exact .nil
  · exact List.nodup_singleton _
  · have hname : ∀ names ∈ (walkFolder s es).files, names ≠ [] ∧ ∀ n ∈ names, '/' ∉ n := by
      intro names hmem
      obtain ⟨content, hread⟩ := hsound.there _ (List.mem_map_of_mem hmem)
      refine ⟨?_, fun n hn => ?_⟩
      · rintro rfl
        rw [Entry.read_append hfind] at hread
        cases hread
      · have hnames := hnamed.isEntryName (Entry.read_eq_ok_iff.1 hread)
        exact (hnames n (List.mem_append_right _ hn)).noSlash
    have hfiles : (walkFolder s es).files.Nodup := by
      have := hsound.distinct
      rw [Walked.below, List.map_map] at this
      exact this.of_map
    rw [Walked.below, List.map_map]
    refine hfiles.map_on fun a ha b hb heq => ?_
    rw [← Text.splitOn_joinWith (hname a ha).1 (hname a ha).2,
      ← Text.splitOn_joinWith (hname b hb).1 (hname b hb).2]
    exact congrArg (Text.splitOn '/') heq

end Files

namespace Project

open Files Secret

variable {p : Project} {disk : Disk} {refused : Refused} {r : ScanResult}

theorem file_of_mem_scanContent {rules : List CompiledRule} {display : Text}
    {content : Except AccessError Bytes} {f : Finding}
    (hf : f ∈ (scanContent rules display content).1) : f.file = display := by
  cases content with
  | error e => cases hf
  | ok bytes =>
    obtain ⟨rule, -, hf⟩ := List.mem_flatMap.1 hf
    obtain ⟨span, -, rfl⟩ := List.mem_map.1 hf
    rfl

/-- A search tells the findings of a file one behind another. -/
theorem ScansTo.contiguous (h : disk.Proper) (hrun : p.ScansTo disk refused r) :
    Contiguous (r.findings.map (·.file)) := by
  rcases hplan : p.scanPlan disk with e | ⟨rules, found⟩
  · exact absurd hrun (not_scansTo hplan)
  · obtain ⟨s, hcollect⟩ := collect_of_scanPlan hplan
    rw [hrun.eq_scanCandidates h.distinct hplan, scanCandidates, ScanResult.ofFiles, List.map_map,
      ← List.flatMap_def]
    exact contiguous_flatMap (nodup_relative h.distinct h.named hcollect)
      fun c _ f hf => file_of_mem_scanContent hf

end Project

namespace Secret

/-- Both views tell every finding once. There is a group for every file that has findings, in the order
in which the files first occur, and it holds the findings of the file in their order; the groups together
are all findings, in the same order exactly where no file's findings are mixed with those of others, as in
the result of every search. Every rule is counted once, the highest counts first and equal ones in the
order in which their rules first occur, and the counts sum up to the number of findings. -/
theorem views_tell_findings_once (fs : List Finding) :
    let counts := (firstSeen (fs.map (·.rule))).map fun rule => (rule, fs.countP (·.rule = rule))
    groupByFile fs =
      (firstSeen (fs.map (·.file))).map (fun file => (file, fs.filter (·.file = file))) ∧
    ((groupByFile fs).flatMap (·.2)).Perm fs ∧
    ((groupByFile fs).flatMap (·.2) = fs ↔ Contiguous (fs.map (·.file))) ∧
    (∀ (p : Project) (disk : Files.Disk) (refused : Files.Refused) (r : ScanResult), disk.Proper →
      p.ScansTo disk refused r → (groupByFile r.findings).flatMap (·.2) = r.findings) ∧
    (countByRule fs).Perm counts ∧ (countByRule fs).Pairwise (fun a b => b.2 ≤ a.2) ∧
    (∀ n, (countByRule fs).filter (·.2 = n) = counts.filter (·.2 = n)) ∧
    ((countByRule fs).map (·.2)).sum = fs.length := by
  intro counts
  obtain ⟨hperm, hsorted, hstable⟩ := foldl_insertByCount (tally fs)
  refine ⟨groupByFile_eq fs, perm_groupByFile fs, groupByFile_in_order_iff,
    fun p disk refused r hdisk hrun => groupByFile_in_order_iff.2 (hrun.contiguous hdisk), ?_, hsorted,
    fun n => ?_, ?_⟩
  · exact hperm.trans (by rw [tally_eq])
  · exact (hstable n).trans (by rw [tally_eq])
  · exact ((hperm.map _).sum_eq).trans (sum_tally fs)

open Files Text in
/-- A search of two files finds a secret and a password in the first, and a password in the second. -/
theorem views_tell_findings_once_of_search :
    let disk : Disk := ⟨.folder [(lit "b.toml", .file (Utf8.encode (lit "password = \"hunter22\""))),
      (lit "a.toml", .file (Utf8.encode (lit "secret = 'open-sesame'\npassword = \"hunter22\"")))], []⟩
    let p : Project := ⟨[], ⟨1, .default, .default, .default⟩, none⟩
    disk.Proper ∧ ∃ r, p.ScansTo disk [] r ∧
      r.findings.map (fun f => (f.file, f.rule)) = [(lit "a.toml", lit "Generic Secret"),
        (lit "a.toml", lit "Generic Password"), (lit "b.toml", lit "Generic Password")] ∧
      (groupByFile r.findings).flatMap (·.2) = r.findings ∧
      countByRule r.findings = [(lit "Generic Password", 2), (lit "Generic Secret", 1)] := by
  intro disk p
  have hproper : disk.Proper := by
    refine ⟨rfl, .folder (by decide) fun e he => ?_, .folder (fun e he => ?_) fun e he => ?_⟩ <;>
      simp only [List.mem_cons, List.not_mem_nil, or_false] at he <;>
      rcases he with rfl | rfl
    all_goals first
      | exact .file _
      | exact ⟨by decide, by decide, by decide, by decide⟩
  have hscan : (p.scan disk []).toOption.map (fun r =>
      (r.findings.map (fun f => (f.file, f.rule)), countByRule r.findings)) =
      some ([(lit "a.toml", lit "Generic Secret"), (lit "a.toml", lit "Generic Password"),
        (lit "b.toml", lit "Generic Password")],
        [(lit "Generic Password", 2), (lit "Generic Secret", 1)]) := by
    decide +kernel
  cases hr : p.scan disk [] with
  | error e =>
    rw [hr] at hscan
    cases hscan
  | ok r =>
    rw [hr] at hscan
    have hrun : p.ScansTo disk [] r := .inTurn (by decide) hr
    obtain ⟨hfound, hcounts⟩ := Prod.mk.inj (Option.some.inj hscan)
    obtain ⟨-, -, -, hsearch, -⟩ := views_tell_findings_once r.findings
    exact ⟨hproper, r, hrun, hfound, hsearch p disk [] r hproper hrun, hcounts⟩

end Secret

end ConfigCare
