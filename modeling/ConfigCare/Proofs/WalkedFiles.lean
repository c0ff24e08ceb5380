import Mathlib.Data.Char
import Mathlib.Data.List.Lex
import Mathlib.Data.Set.Card
import ConfigCare.Proofs.Walking

/-! Which files a walk finds, and in what order. It sees a file if it walks every folder on the way and
the globs do not leave out the file itself; it takes those of them that have an accepted extension. Paths
are in the order of their names, name by name, as folders are walked in the order of theirs. -/

namespace ConfigCare.Files

open Entry (find read)

variable {α : Type} {s : Selection} {es : List (Text × Entry)} {above below names : List Text}
  {name : Text} {e : Entry}

/-! ## Sorting -/

/-- Texts are in the order of the codes of their characters, as lists of them are. -/
theorem textBefore_iff {a b : Text} : textBefore a b = true ↔ a < b := by
  induction a generalizing b with
  | nil => cases b <;> simp [textBefore]
  | cons c cs ih =>
    cases b with
    | nil => simp [textBefore]
    | cons d ds =>
      have hcode : c.toNat < d.toNat ↔ c < d := Iff.rfl
      rw [List.cons_lt_cons_iff, ← ih, ← hcode, textBefore]
      simp only [Bool.or_eq_true, Bool.and_eq_true, decide_eq_true_eq]

theorem insertByName_pairwise {e : Text × α} {fs : List (Text × α)}
    (h : fs.Pairwise fun f g => f.1 < g.1) (hnew : e.1 ∉ fs.map Prod.fst) :
    (insertByName e fs).Pairwise fun f g => f.1 < g.1 := by
  induction fs with
  | nil => exact List.pairwise_singleton _ _
  | cons f fs ih =>
    rw [List.map_cons, List.mem_cons, not_or] at hnew
    rw [List.pairwise_cons] at h
    unfold insertByName
    split
    · next hbefore =>
      refine List.pairwise_cons.2 ⟨fun g hg => ?_, ih h.2 hnew.2⟩
      rcases List.mem_cons.1 ((insertByName_perm e fs).mem_iff.1 hg) with rfl | hg
      · exact textBefore_iff.1 hbefore
      · exact h.1 g hg
    · next hbefore =>
      rw [textBefore_iff] at hbefore
      have hlt : e.1 < f.1 := (lt_trichotomy e.1 f.1).resolve_right (not_or.2 ⟨hnew.1, hbefore⟩)
      refine List.pairwise_cons.2 ⟨fun g hg => ?_, List.pairwise_cons.2 h⟩
      rcases List.mem_cons.1 hg with rfl | hg
      · exact hlt
      · exact hlt.trans (h.1 g hg)

theorem sortByName_pairwise {fs : List (Text × α)} (hdistinct : (fs.map Prod.fst).Nodup) :
    (sortByName fs).Pairwise fun f g => f.1 < g.1 := by
  induction fs with
  | nil => exact .nil
  | cons f fs ih =>
    rw [List.map_cons, List.nodup_cons] at hdistinct
    refine insertByName_pairwise (ih hdistinct.2) fun hmem => hdistinct.1 ?_
    exact ((sortByName_perm fs).map Prod.fst).mem_iff.1 hmem

/-! ## The files seen -/

/-- Whether a walk that has come to a folder goes on from there to a file: it walks all folders on the
way, and the file itself is not ignored. -/
structure Selection.SeesFrom (s : Selection) (above below : List Text) : Prop where
  descends : ∀ front name back, below = front ++ name :: back → back ≠ [] →
    s.descends name (Text.joinWith ['/'] (above ++ front ++ [name])) = true
  kept : s.ignores (Text.joinWith ['/'] (above ++ below)) false = false

theorem seesFrom_singleton :
    s.SeesFrom above [name] ↔ s.ignores (Text.joinWith ['/'] (above ++ [name])) false = false := by
  refine ⟨fun h => h.kept, fun h => ⟨fun front n back heq hback => ?_, h⟩⟩
  cases front with
  | nil => exact absurd (List.cons.inj heq).2.symm hback
  | cons m front => simp at heq

theorem seesFrom_cons (h : below ≠ []) :
    s.SeesFrom above (name :: below) ↔
      s.descends name (Text.joinWith ['/'] (above ++ [name])) = true ∧
        s.SeesFrom (above ++ [name]) below := by
  constructor
  · intro hsees
    refine ⟨by simpa using hsees.descends [] name below rfl h, ⟨fun front n back heq hback => ?_, ?_⟩⟩
    · simpa using hsees.descends (name :: front) n back (by rw [heq]; rfl) hback
    · simpa using hsees.kept
  · rintro ⟨hdescends, hsees⟩
    refine ⟨fun front n back heq hback => ?_, by simpa using hsees.kept⟩
    cases front with
    | nil =>
      cases heq
      simpa using hdescends
    | cons m front =>
      cases heq
      simpa using hsees.descends front n back rfl hback

/-- Whether a walk sees a file below an entry, given by its names from the root of the walk. -/
def Selection.Sees (s : Selection) (above : List Text) (e : Entry) (names : List Text) : Prop :=
  ∃ below content, names = above ++ below ∧ read below e = .ok content ∧ s.SeesFrom above below

/-- A file in a folder lies under one of its entries. -/
theorem read_folder_iff (hdistinct : (es.map Prod.fst).Nodup) {content : Bytes} :
    read below (.folder es) = .ok content ↔
      ∃ e ∈ es, ∃ rest, below = e.1 :: rest ∧ read rest e.2 = .ok content := by
  constructor
  · intro hread
    cases below with
    | nil => cases hread
    | cons name rest =>
      rw [Entry.read_cons] at hread
      split at hread
      · cases hread
      · next e hlookup => exact ⟨(name, e), Data.mem_of_lookup? hlookup, rest, rfl, hread⟩
  · rintro ⟨⟨name, e⟩, hmem, rest, rfl, hread⟩
    rw [Entry.read_cons, Data.lookup?_of_mem hdistinct hmem]
    exact hread

theorem read_entry_iff {content : Bytes} :
    read below (.folder [(name, e)]) = .ok content ↔
      ∃ rest, below = name :: rest ∧ read rest e = .ok content := by
  have hone : ([(name, e)].map Prod.fst).Nodup := List.nodup_singleton name
  simpa using read_folder_iff hone

theorem sees_folder_iff (hdistinct : (es.map Prod.fst).Nodup) :
    s.Sees above (.folder es) names ↔ ∃ e ∈ es, s.Sees above (.folder [e]) names := by
  constructor
  · rintro ⟨below, content, rfl, hread, hsees⟩
    obtain ⟨e, hmem, hrest⟩ := (read_folder_iff hdistinct).1 hread
    exact ⟨e, hmem, below, content, rfl, read_entry_iff.2 hrest, hsees⟩
  · rintro ⟨e, hmem, below, content, rfl, hread, hsees⟩
    have hrest := read_entry_iff.1 hread
    exact ⟨below, content, rfl, (read_folder_iff hdistinct).2 ⟨e, hmem, hrest⟩, hsees⟩

theorem sees_under_file_iff {content : Bytes} :
    s.Sees above (.folder [(name, .file content)]) names ↔
      s.ignores (Text.joinWith ['/'] (above ++ [name])) false = false ∧ names = above ++ [name] := by
  constructor
  · rintro ⟨below, content', rfl, hread, hsees⟩
    obtain ⟨rest, rfl, hrest⟩ := read_entry_iff.1 hread
    cases rest with
    | nil => exact ⟨seesFrom_singleton.1 hsees, rfl⟩
    | cons => cases hrest
  · rintro ⟨hkept, rfl⟩
    exact ⟨[name], content, rfl, read_entry_iff.2 ⟨[], rfl, rfl⟩, seesFrom_singleton.2 hkept⟩

theorem sees_under_folder_iff :
    s.Sees above (.folder [(name, .folder es)]) names ↔
      s.descends name (Text.joinWith ['/'] (above ++ [name])) = true ∧
        s.Sees (above ++ [name]) (.folder es) names := by
  have hne {below : List Text} {content : Bytes} (h : read below (.folder es) = .ok content) :
      below ≠ [] := by
    rintro rfl
    cases h
  constructor
  · rintro ⟨below, content, rfl, hread, hsees⟩
    obtain ⟨rest, rfl, hrest⟩ := read_entry_iff.1 hread
    obtain ⟨hdescends, hsees⟩ := (seesFrom_cons (hne hrest)).1 hsees
    exact ⟨hdescends, rest, content, by simp, hrest, hsees⟩
  · rintro ⟨hdescends, rest, content, rfl, hread, hsees⟩
    exact ⟨name :: rest, content, by simp, read_entry_iff.2 ⟨rest, rfl, hread⟩,
      (seesFrom_cons (hne hread)).2 ⟨hdescends, hsees⟩⟩

/-! ## The walk -/

/-- A walk has seen the files of some kind, in order, and has found those with an accepted extension. -/
def Walked.Lists (s : Selection) (w : Walked) (kind : List Text → Prop) : Prop :=
  ∃ seen : List (List Text), w.files = seen.filter (fun names => s.accepts (names.getLast?.getD [])) ∧
    w.visited = seen.length ∧ seen.Pairwise (· < ·) ∧ ∀ names, names ∈ seen ↔ kind names

theorem Walked.lists_empty {kind : List Text → Prop} (h : ∀ names, ¬ kind names) :
    Walked.empty.Lists s kind :=
  ⟨[], rfl, rfl, .nil, fun names => ⟨nofun, fun hkind => absurd hkind (h names)⟩⟩

/-- What is seen under one name after another, if the names are in order. -/
theorem lists_walkEntries (hsorted : es.Pairwise fun e f => e.1 < f.1)
    (h : ∀ e ∈ es, (walkEntry s above e.1 e.2).Lists s (s.Sees above (.folder [e]))) :
    (Walked.joined (walkEntries s above es)).Lists s
      fun names => ∃ e ∈ es, s.Sees above (.folder [e]) names := by
  induction es with
  | nil => exact Walked.lists_empty (by simp)
  | cons e es ih =>
    rw [List.pairwise_cons] at hsorted
    rw [List.forall_mem_cons] at h
    obtain ⟨seen, hfiles, hvisited, hpairwise, hmem⟩ := h.1
    obtain ⟨rest, hfiles', hvisited', hpairwise', hmem'⟩ := ih hsorted.2 h.2
    refine ⟨seen ++ rest, ?_, ?_, ?_, fun names => ?_⟩
    · rw [List.filter_append, ← hfiles, ← hfiles']
      rfl
    · rw [List.length_append, ← hvisited, ← hvisited']
      rfl
    · refine List.pairwise_append.2 ⟨hpairwise, hpairwise', fun names hnames names' hnames' => ?_⟩
      obtain ⟨below, _, rfl, hread, _⟩ := (hmem _).1 hnames
      obtain ⟨f, hf, below', _, rfl, hread', _⟩ := (hmem' _).1 hnames'
      obtain ⟨under, rfl, _⟩ := read_entry_iff.1 hread
      obtain ⟨under', rfl, _⟩ := read_entry_iff.1 hread'
      have hlt : e.1 < f.1 := hsorted.1 f hf
      exact List.append_left_lt (List.cons_lt_cons_iff.2 (.inl hlt))
    · rw [List.mem_append, hmem, hmem']
      exact (List.exists_mem_cons_iff (fun e => s.Sees above (.folder [e]) names) e es).symm

/-- Sorting what was found by name is the walk of the entries sorted by name. -/
theorem sortByName_walkEntries (s : Selection) (above : List Text) (es : List (Text × Entry)) :
    sortByName (walkEntries s above es) = walkEntries s above (sortByName es) := by
  have hinsert (e : Text × Entry) (fs : List (Text × Entry)) :
      insertByName (e.1, walkEntry s above e.1 e.2) (walkEntries s above fs) =
        walkEntries s above (insertByName e fs) := by
    induction fs with
    | nil => rfl
    | cons f fs ih =>
      rw [walkEntries, insertByName, insertByName]
      split
      · rw [walkEntries, ih]
      · rfl
  induction es with
  | nil => rfl
  | cons e es ih => rw [walkEntries, sortByName, sortByName, ih, hinsert]

theorem lists_folder (hdistinct : (es.map Prod.fst).Nodup)
    (h : ∀ e ∈ es, (walkEntry s above e.1 e.2).Lists s (s.Sees above (.folder [e]))) :
    (Walked.joined (sortByName (walkEntries s above es))).Lists s (s.Sees above (.folder es)) := by
  have hperm := sortByName_perm es
  obtain ⟨seen, hfiles, hvisited, hpairwise, hmem⟩ :=
    lists_walkEntries (sortByName_pairwise hdistinct) fun e he => h e (hperm.mem_iff.1 he)
  rw [sortByName_walkEntries]
  refine ⟨seen, hfiles, hvisited, hpairwise, fun names => ?_⟩
  simp only [hmem, sees_folder_iff hdistinct, hperm.mem_iff]

theorem lists_walkEntry (he : e.Proper) (above : List Text) (name : Text) :
    (walkEntry s above name e).Lists s (s.Sees above (.folder [(name, e)])) := by
  induction he generalizing above name with
  | file content =>
    rw [walkEntry]
    split
    · next hignored =>
      exact Walked.lists_empty fun names hsees => by
        simp [sees_under_file_iff.1 hsees |>.1] at hignored
    · next hkept =>
      refine ⟨[above ++ [name]], by simp [List.filter_cons], rfl,
        List.pairwise_singleton _ _, fun names => ?_⟩
      rw [List.mem_singleton, sees_under_file_iff]
      exact ⟨fun heq => ⟨Bool.eq_false_of_not_eq_true hkept, heq⟩, And.right⟩
  | @folder es hdistinct _ ih =>
    rw [walkEntry]
    split
    · next hdescends =>
      obtain ⟨seen, hfiles, hvisited, hpairwise, hmem⟩ :=
        lists_folder hdistinct fun e hmem => ih e hmem (above ++ [name]) e.1
      refine ⟨seen, hfiles, hvisited, hpairwise, fun names => ?_⟩
      rw [hmem, sees_under_folder_iff]
      exact ⟨fun hsees => ⟨hdescends, hsees⟩, And.right⟩
    · next hpruned =>
      exact Walked.lists_empty fun names hsees => hpruned (sees_under_folder_iff.1 hsees).1

theorem lists_walkFolder (h : (Entry.folder es).Proper) :
    (walkFolder s es).Lists s (s.Sees [] (.folder es)) := by
  cases h with
  | folder hdistinct hproper =>
    exact lists_folder hdistinct fun e he => lists_walkEntry (hproper e he) [] e.1

/-- The walk of a folder finds just the files that it sees and whose extension is accepted, in the
strict order of their names, and counts those that it sees whatever their extension. A file is seen if the
walk goes down every folder on the way to it and it is not ignored. -/
theorem walk_finds_seen {tree : Entry} {place : List Text} (h : tree.Proper)
    (hfind : tree.find place = .ok (.folder es)) :
    walk s place tree = .ok ((walkFolder s es).below place) ∧
      (∀ names, names ∈ (walkFolder s es).files ↔
        (∃ content, tree.read (place ++ names) = .ok content) ∧ s.SeesFrom [] names ∧
          s.accepts (names.getLast?.getD []) = true) ∧
      (walkFolder s es).files.Pairwise (· < ·) ∧
      ((walkFolder s es).visited : ℕ∞) =
        {names | (∃ content, tree.read (place ++ names) = .ok content) ∧ s.SeesFrom [] names}.encard := by
  have hsees (names : List Text) : s.Sees [] (.folder es) names ↔
      (∃ content, tree.read (place ++ names) = .ok content) ∧ s.SeesFrom [] names := by
    simp only [Entry.read_append hfind]
    constructor
    · rintro ⟨below, content, rfl, hread, hsees⟩
      exact ⟨⟨content, hread⟩, hsees⟩
    · rintro ⟨⟨content, hread⟩, hsees⟩
      exact ⟨names, content, rfl, hread, hsees⟩
  obtain ⟨seen, hfiles, hvisited, hpairwise, hmem⟩ := lists_walkFolder (s := s) (proper_find h hfind)
  refine ⟨by rw [walk, hfind], fun names => ?_, ?_, ?_⟩
  · rw [hfiles, List.mem_filter, hmem, hsees, and_assoc]
  · rw [hfiles]
    exact hpairwise.sublist List.filter_sublist
  · have hnodup : seen.Nodup := hpairwise.imp fun hlt => hlt.ne
    have hset : {names | (∃ content, tree.read (place ++ names) = .ok content) ∧
        s.SeesFrom [] names} = (seen.toFinset : Set (List Text)) := by
      ext names
      rw [Finset.mem_coe, List.mem_toFinset, hmem, hsees, Set.mem_ofPred_eq]
    rw [hset, Set.encard_coe_eq_coe_finsetCard, List.toFinset_card_of_nodup hnodup, hvisited]

/-- The folder `a` comes before `a-b`, although a hyphen comes before a slash. The text file is seen
and not taken; a hidden folder is not walked. -/
theorem walk_finds_seen_in_folders :
    let es := [(Text.lit "a-b", Entry.folder [(Text.lit "x.json", .file [])]),
      (Text.lit ".b", .folder [(Text.lit "x.json", .file [])]),
      (Text.lit "a", .folder [(Text.lit "x.json", .file []), (Text.lit "a.txt", .file [])])]
    let tree := Entry.folder [(Text.lit "srv", .folder es)]
    let s : Selection := ⟨[], [Text.lit ".json"], true⟩
    tree.Proper ∧ tree.find [Text.lit "srv"] = .ok (.folder es) ∧
      walk s [Text.lit "srv"] tree = .ok ((walkFolder s es).below [Text.lit "srv"]) ∧
      (walkFolder s es).files =
        [[Text.lit "a", Text.lit "x.json"], [Text.lit "a-b", Text.lit "x.json"]] ∧
      (walkFolder s es).files.Pairwise (· < ·) ∧ (walkFolder s es).visited = 3 ∧
      ((walkFolder s es).visited : ℕ∞) = {names | (∃ content,
        tree.read ([Text.lit "srv"] ++ names) = .ok content) ∧ s.SeesFrom [] names}.encard := by
  intro es tree s
  have hproper : tree.Proper := by
    refine .folder (by decide) fun e he => ?_
    cases List.mem_singleton.1 he
    refine .folder (by decide) fun e he => ?_
    simp only [es, List.mem_cons, List.not_mem_nil, or_false] at he
    rcases he with rfl | rfl | rfl <;> refine .folder (by decide) fun e he => ?_ <;>
      simp only [List.mem_cons, List.not_mem_nil, or_false] at he
    · exact he ▸ .file _
    · exact he ▸ .file _
    · rcases he with rfl | rfl <;> exact .file _
  have hfind : tree.find [Text.lit "srv"] = .ok (.folder es) := rfl
  obtain ⟨hwalk, -, hsorted, hvisited⟩ := walk_finds_seen (s := s) hproper hfind
  exact ⟨hproper, hfind, hwalk, by decide +kernel, hsorted, by decide +kernel, hvisited⟩

end ConfigCare.Files
