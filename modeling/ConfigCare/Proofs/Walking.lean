import ConfigCare.Files.Walk
import ConfigCare.Proofs.Places

/-! What a walk finds. Every file that it finds lies at the place that the walk tells, and in a proper
tree no place is told twice. -/

namespace ConfigCare.Files

open Entry (find read)

variable {α : Type} {s : Selection} {es : List (Text × Entry)} {above names : List Text}

theorem insertByName_perm (e : Text × α) (es : List (Text × α)) :
    (insertByName e es).Perm (e :: es) := by
  induction es with
  | nil => exact .refl _
  | cons f rest ih =>
    unfold insertByName
    split
    · exact (ih.cons f).trans (.swap e f rest)
    · exact .refl _

theorem sortByName_perm (es : List (Text × α)) : (sortByName es).Perm es := by
  induction es with
  | nil => exact .refl _
  | cons e es ih => exact (insertByName_perm e _).trans (ih.cons e)

theorem walkEntries_eq_map (s : Selection) (above : List Text) (es : List (Text × Entry)) :
    walkEntries s above es = es.map fun e => (e.1, walkEntry s above e.1 e.2) := by
  induction es with
  | nil => rfl
  | cons e es ih => rw [walkEntries, ih]; rfl

/-- What was found under several names, together. -/
def Walked.joined (ws : List (Text × Walked)) : Walked :=
  ws.foldr (fun w rest => w.2.append rest) .empty

theorem files_joined (ws : List (Text × Walked)) :
    (Walked.joined ws).files = ws.flatMap fun w => w.2.files := by
  induction ws with
  | nil => rfl
  | cons w ws ih =>
    rw [List.flatMap_cons, ← ih]
    rfl

/-- The files found in a folder are those found under its entries, in some order. -/
theorem files_walkEntries_perm (s : Selection) (above : List Text) (es : List (Text × Entry)) :
    (Walked.joined (sortByName (walkEntries s above es))).files.Perm
      (es.flatMap fun e => (walkEntry s above e.1 e.2).files) := by
  rw [files_joined, walkEntries_eq_map]
  refine ((sortByName_perm _).flatMap_right _).trans ?_
  rw [List.flatMap_map]

/-- A folder is walked, or nothing is found under its name. -/
theorem files_walkEntry_folder (s : Selection) (above : List Text) (name : Text)
    (es : List (Text × Entry)) :
    (walkEntry s above name (.folder es)).files = [] ∨
      (walkEntry s above name (.folder es)).files.Perm
        (es.flatMap fun e => (walkEntry s (above ++ [name]) e.1 e.2).files) := by
  rw [walkEntry]
  split
  · exact .inr (files_walkEntries_perm s _ es)
  · exact .inl rfl

/-- A file is found under its name, or it is not taken. -/
theorem files_walkEntry_file (s : Selection) (above : List Text) (name : Text) (content : Bytes) :
    (walkEntry s above name (.file content)).files = [] ∨
      (walkEntry s above name (.file content)).files = [above ++ [name]] := by
  rw [walkEntry]
  by_cases hignored : s.ignores (Text.joinWith ['/'] (above ++ [name])) false
  · exact .inl (by simp [hignored, Walked.empty])
  · by_cases haccepted : s.accepts name
    · exact .inr (by simp [hignored, haccepted])
    · exact .inl (by simp [hignored, haccepted])

/-- A file is found under the name where the walk of it begins, and lies there. -/
theorem exists_of_mem_walkEntry {e : Entry} (he : e.Proper) {name : Text}
    (h : names ∈ (walkEntry s above name e).files) :
    ∃ below content, names = above ++ name :: below ∧ read below e = .ok content := by
  induction he generalizing above name with
  | file content =>
    rcases files_walkEntry_file s above name content with hnone | hone
    · rw [hnone] at h
      cases h
    · rw [hone] at h
      exact ⟨[], content, List.mem_singleton.1 h, rfl⟩
  | @folder es hdistinct _ ih =>
    rcases files_walkEntry_folder s above name es with hnone | hperm
    · rw [hnone] at h
      cases h
    · obtain ⟨⟨n, e⟩, hmem, hnames⟩ := List.mem_flatMap.1 (hperm.mem_iff.1 h)
      obtain ⟨below, content, rfl, hread⟩ := ih _ hmem hnames
      refine ⟨n :: below, content, by simp, ?_⟩
      rw [Entry.read_cons, Data.lookup?_of_mem hdistinct hmem]
      exact hread

/-- Under entries of different names different files are found. -/
theorem nodup_files (hdistinct : (es.map Prod.fst).Nodup) (hproper : ∀ e ∈ es, e.2.Proper)
    (h : ∀ e ∈ es, (walkEntry s above e.1 e.2).files.Nodup) :
    (es.flatMap fun e => (walkEntry s above e.1 e.2).files).Nodup := by
  rw [List.nodup_flatMap]
  refine ⟨h, (List.pairwise_map.1 hdistinct).imp_of_mem fun {e e'} he he' hne => ?_⟩
  intro names hnames hnames'
  obtain ⟨below, -, heq, -⟩ := exists_of_mem_walkEntry (hproper e he) hnames
  obtain ⟨below', -, heq', -⟩ := exists_of_mem_walkEntry (hproper e' he') hnames'
  rw [heq] at heq'
  exact hne (List.cons.inj (List.append_cancel_left heq')).1

theorem nodup_walkEntry {e : Entry} (he : e.Proper) (above : List Text) (name : Text) :
    (walkEntry s above name e).files.Nodup := by
  induction he generalizing above name with
  | file content =>
    rcases files_walkEntry_file s above name content with hnone | hone
    · rw [hnone]
      exact .nil
    · rw [hone]
      exact List.nodup_singleton _
  | @folder es hdistinct hproper ih =>
    rcases files_walkEntry_folder s above name es with hnone | hperm
    · rw [hnone]
      exact .nil
    · exact hperm.nodup_iff.2 (nodup_files hdistinct hproper fun e he => ih e he _ _)

/-- In a proper tree the files to look into are told once each, and they are there. -/
structure Collected.Sound (found : Collected) (tree : Entry) : Prop where
  distinct : (found.candidates.map Candidate.place).Nodup
  there : ∀ c ∈ found.candidates, ∃ content, tree.read c.place = .ok content

theorem proper_find {tree e : Entry} (h : tree.Proper) {place : List Text}
    (hfind : tree.find place = .ok e) : e.Proper := by
  induction h generalizing place with
  | file content =>
    cases place <;> cases hfind
    exact .file content
  | @folder es hdistinct hproper ih =>
    cases place with
    | nil =>
      cases hfind
      exact .folder hdistinct hproper
    | cons n ns =>
      rw [find] at hfind
      split at hfind
      · cases hfind
      · next e' hlookup => exact ih (n, e') (Data.mem_of_lookup? hlookup) hfind

theorem sound_walk {tree : Entry} {place : List Text} (h : (Entry.folder es).Proper)
    (hfind : tree.find place = .ok (.folder es)) : ((walkFolder s es).below place).Sound tree := by
  obtain ⟨hdistinct, hproper⟩ : (es.map Prod.fst).Nodup ∧ ∀ e ∈ es, e.2.Proper := by
    cases h with
    | folder hdistinct hproper => exact ⟨hdistinct, hproper⟩
  have hperm := files_walkEntries_perm s [] es
  constructor
  · have hnodup : (walkFolder s es).files.Nodup :=
      hperm.nodup_iff.2 (nodup_files hdistinct hproper fun e he => nodup_walkEntry (hproper e he) _ _)
    rw [Walked.below, List.map_map]
    exact hnodup.map fun a b hab => List.append_cancel_left hab
  · intro c hc
    obtain ⟨names, hnames, rfl⟩ := List.mem_map.1 hc
    obtain ⟨⟨n, e⟩, hmem, hnames⟩ := List.mem_flatMap.1 (hperm.mem_iff.1 hnames)
    obtain ⟨below, content, rfl, hread⟩ := exists_of_mem_walkEntry (hproper _ hmem) hnames
    refine ⟨content, ?_⟩
    rw [Entry.read_append hfind, List.nil_append, Entry.read_cons, Data.lookup?_of_mem hdistinct hmem]
    exact hread

/-- What is found at a place: nothing, the file that lies there, or what a walk of the folder takes. -/
theorem collect_eq_ok {tree : Entry} {place : List Text} {found : Collected}
    (h : collect s place tree = .ok found) :
    (∃ n, found = ⟨[], n⟩) ∨
      (∃ content, tree.find place = .ok (.file content) ∧
        found = ⟨[⟨place, place.getLast?.getD []⟩], 1⟩) ∨
      ∃ es, tree.find place = .ok (.folder es) ∧ found = (walkFolder s es).below place := by
  unfold collect at h
  split at h
  · next content hfind =>
    simp only at h
    split at h
    · cases h
      exact .inl ⟨0, rfl⟩
    · split at h
      · cases h
        exact .inr (.inl ⟨content, hfind, rfl⟩)
      · cases h
        exact .inl ⟨1, rfl⟩
  · unfold walk at h
    split at h
    · next es hfind =>
      cases h
      exact .inr (.inr ⟨es, hfind, rfl⟩)
    · cases h
    · cases h

theorem sound_collect {tree : Entry} {place : List Text} {found : Collected} (h : tree.Proper)
    (hfound : collect s place tree = .ok found) : found.Sound tree := by
  obtain ⟨n, rfl⟩ | ⟨content, hfind, rfl⟩ | ⟨es, hfind, rfl⟩ := collect_eq_ok hfound
  · exact ⟨.nil, by simp⟩
  · exact ⟨by simp, by simpa using ⟨content, Entry.read_eq_ok_iff.2 hfind⟩⟩
  · exact sound_walk (proper_find h hfind) hfind

end ConfigCare.Files
