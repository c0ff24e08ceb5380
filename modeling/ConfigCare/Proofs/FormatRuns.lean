import ConfigCare.Project.Format
import ConfigCare.Proofs.Encoding
import ConfigCare.Proofs.Unencodable
import ConfigCare.Proofs.Walking

/-! A format run, file after file. The turn of a file changes at most that file, so every file is
decided on as it was before the run: `ends_formatCandidates`. A run ends early only at a file whose
formatted text cannot be encoded. All of this is about trees of files and folders without links, where
two places never are the same file. -/

namespace ConfigCare

namespace Files.Candidate

variable {c : Candidate} {refused : Refused} {tree tree' : Entry} {content b : Bytes} {s t : Text}

/-- Whether a file can be read and holds the UTF-8 of a text. -/
def Holds (c : Candidate) (refused : Refused) (tree : Entry) (s : Text) : Prop :=
  ∃ bytes, c.read refused tree = .ok bytes ∧ Utf8.decode bytes = .ok s

/-- Whether a file holds a document that has no text to be written as. -/
def Unencodable (c : Candidate) (refused : Refused) (tree : Entry) : Prop :=
  ∃ s, c.Holds refused tree s ∧ Format.Unencodable s c.extension

theorem read_congr (h : tree'.read c.place = tree.read c.place) :
    c.read refused tree' = c.read refused tree := by
  simp only [read, h]

theorem Holds.congr (h : tree'.read c.place = tree.read c.place) (hs : c.Holds refused tree' s) :
    c.Holds refused tree s := by
  obtain ⟨bytes, hread, hdecode⟩ := hs
  exact ⟨bytes, read_congr h ▸ hread, hdecode⟩

theorem Unencodable.congr (h : tree'.read c.place = tree.read c.place)
    (hc : c.Unencodable refused tree') : c.Unencodable refused tree := by
  obtain ⟨s, hs, hformat⟩ := hc
  exact ⟨s, hs.congr h, hformat⟩

theorem Holds.unique (hs : c.Holds refused tree s) (ht : c.Holds refused tree t) : s = t := by
  obtain ⟨bytes, hread, hdecode⟩ := hs
  obtain ⟨bytes', hread', hdecode'⟩ := ht
  rw [hread] at hread'
  cases hread'
  rw [hdecode] at hdecode'
  exact Except.ok.inj hdecode'

/-- A file that is there is written unless it is locked. -/
theorem write_eq (h : tree.read c.place = .ok content) (refused : Refused) (b : Bytes) :
    (c.place ∈ refused ∧ c.write refused b tree = .error ⟨.denied, c.path.text⟩) ∨
      (c.place ∉ refused ∧ ∃ tree', c.write refused b tree = .ok tree' ∧
        ∀ place, tree'.read place = if place = c.place then .ok b else tree.read place) := by
  unfold write
  by_cases hlocked : c.place ∈ refused
  · exact .inl ⟨hlocked, if_pos (List.contains_iff_mem.2 hlocked)⟩
  · obtain ⟨tree', hwrite, hframe⟩ := Entry.write_of_read h b
    refine .inr ⟨hlocked, tree', ?_, hframe⟩
    rw [if_neg (by simpa using hlocked), hwrite]
    rfl

end Files.Candidate

namespace Project

open Files Format
open Text (lit)

/-! ## The turn of a file -/

section

variable (strict check : Bool) (locks : Locks)

/-- What can be decided on a file. Only a document that cannot be encoded leaves it without a decision,
and only in order to write it. -/
inductive Decides (refused : Refused) (tree : Entry) (c : Candidate) :
    Except LoneSurrogates Decision → Prop where
  | unread {e : AccessError} (h : c.read refused tree = .error e) :
    Decides refused tree c (.ok (.failed e.message))
  | undecoded {bytes : Bytes} {e : Utf8.DecodeError} (h : c.read refused tree = .ok bytes)
    (hdecode : Utf8.decode bytes = .error e) : Decides refused tree c (.ok (.failed e.message))
  | unchanged {s : Text} (h : c.Holds refused tree s)
    (hsame : document s c.extension strict = .ok s) :
    Decides refused tree c (.ok ⟨.unchanged, none, none⟩)
  | differs {s : Text} (hcheck : check = true) (h : c.Holds refused tree s)
    (hdiffers : document s c.extension strict ≠ .ok s) :
    Decides refused tree c (.ok (.failed needsFormatting))
  | write {s t : Text} (hcheck : check = false) (h : c.Holds refused tree s)
    (hdocument : document s c.extension strict = .ok t) (hdiffers : t ≠ s) :
    Decides refused tree c (.ok ⟨.formatted, none, some (Utf8.encode t)⟩)
  | unencodable {e : LoneSurrogates} (hcheck : check = false) (h : c.Unencodable refused tree) :
    Decides refused tree c (.error e)

/-- How a file fares in a run: the outcome that is told of it, and what it holds then. -/
inductive Fares (tree : Entry) (c : Candidate) : Outcome → Except AccessFault Bytes → Prop where
  | unread {e : AccessError} (h : c.read locks.reading tree = .error e) :
    Fares tree c ⟨c.relative, .error, some e.message⟩ (tree.read c.place)
  | undecoded {bytes : Bytes} {e : Utf8.DecodeError} (h : c.read locks.reading tree = .ok bytes)
    (hdecode : Utf8.decode bytes = .error e) :
    Fares tree c ⟨c.relative, .error, some e.message⟩ (tree.read c.place)
  | unchanged {s : Text} (h : c.Holds locks.reading tree s)
    (hsame : document s c.extension strict = .ok s) :
    Fares tree c ⟨c.relative, .unchanged, none⟩ (tree.read c.place)
  | differs {s : Text} (hcheck : check = true) (h : c.Holds locks.reading tree s)
    (hdiffers : document s c.extension strict ≠ .ok s) :
    Fares tree c ⟨c.relative, .error, some needsFormatting⟩ (tree.read c.place)
  | unwritten {s t : Text} (hcheck : check = false) (h : c.Holds locks.reading tree s)
    (hdocument : document s c.extension strict = .ok t) (hdiffers : t ≠ s)
    (hlocked : c.place ∈ locks.writing) :
    Fares tree c ⟨c.relative, .error, some (AccessError.message ⟨.denied, c.path.text⟩)⟩
      (tree.read c.place)
  | formatted {s t : Text} (hcheck : check = false) (h : c.Holds locks.reading tree s)
    (hdocument : document s c.extension strict = .ok t) (hdiffers : t ≠ s)
    (hfree : c.place ∉ locks.writing) :
    Fares tree c ⟨c.relative, .formatted, none⟩ (.ok (Utf8.encode t))

/-- A file is decided on as it is before the run, the outcome is the one that the file would have in a
run of its own, and what the file holds afterwards is what that outcome tells. -/
structure Treated (tree tree' : Entry) (c : Candidate) (o : Outcome) : Prop where
  alone : (formatCandidates strict check locks tree [c]).2 = .ok [o]
  fares : Fares strict check locks tree c o (tree'.read c.place)

/-- What a run over files makes of a tree. Where none of them lies, nothing is changed. -/
structure RunsTo (tree tree' : Entry) (cs : List Candidate) (os : List Outcome) : Prop where
  treated : List.Forall₂ (Treated strict check locks tree tree') cs os
  frame : ∀ place, (∀ c ∈ cs, c.place ≠ place) → tree'.read place = tree.read place

/-- How a run over files ends: after the last of them, or at one that cannot be encoded. -/
inductive Ends (tree : Entry) (cs : List Candidate) :
    Entry × Except LoneSurrogates (List Outcome) → Prop where
  | returns {tree' : Entry} {os : List Outcome} (h : RunsTo strict check locks tree tree' cs os) :
    Ends tree cs (tree', .ok os)
  | stops {front back : List Candidate} {c : Candidate} {tree' : Entry} {os : List Outcome}
    {e : LoneSurrogates} (hcs : cs = front ++ c :: back) (hcheck : check = false)
    (hc : c.Unencodable locks.reading tree) (h : RunsTo strict check locks tree tree' front os) :
    Ends tree cs (tree', .error e)

end

variable {strict check : Bool} {locks : Locks} {tree tree' tree₁ : Entry} {c : Candidate}
  {cs : List Candidate} {o : Outcome} {os : List Outcome} {content : Bytes} {d : Decision}

theorem decides_decide (strict check : Bool) (refused : Refused) (tree : Entry) (c : Candidate) :
    Decides strict check refused tree c (decide strict check c.extension (c.read refused tree)) := by
  unfold decide
  split
  · next e hread => exact .unread hread
  · next bytes hread =>
    split
    · next e hdecode => exact .undecoded hread hdecode
    · next s hdecode =>
      have hholds : c.Holds refused tree s := ⟨bytes, hread, hdecode⟩
      split
      · next t hdocument =>
        have hdiffers : t ≠ s → document s c.extension strict ≠ .ok s := fun hne heq =>
          hne (Except.ok.inj (hdocument.symm.trans heq))
        split
        · next hsame => exact .unchanged hholds (hsame ▸ hdocument)
        · next hne =>
          cases check
          · exact .write rfl hholds hdocument hne
          · exact .differs rfl hholds (hdiffers hne)
      · next e hdocument =>
        have hdiffers : document s c.extension strict ≠ .ok s := by simp [hdocument]
        cases check
        · exact .unencodable rfl ⟨s, hholds, (document_eq_error_iff strict).1 ⟨e, hdocument⟩⟩
        · exact .differs rfl hholds hdiffers

/-- The turn of a file that is there and decided on: it fares as that tells, and only it is changed. -/
theorem fares_apply (hthere : tree.read c.place = .ok content)
    (h : Decides strict check locks.reading tree c (.ok d)) :
    Fares strict check locks tree c (d.apply c locks.writing tree).1
        ((d.apply c locks.writing tree).2.read c.place) ∧
      ∀ place, place ≠ c.place →
        (d.apply c locks.writing tree).2.read place = tree.read place := by
  cases h with
  | unread hread => exact ⟨.unread hread, fun _ _ => rfl⟩
  | undecoded hread hdecode => exact ⟨.undecoded hread hdecode, fun _ _ => rfl⟩
  | unchanged hholds hsame => exact ⟨.unchanged hholds hsame, fun _ _ => rfl⟩
  | differs hcheck hholds hdiffers => exact ⟨.differs hcheck hholds hdiffers, fun _ _ => rfl⟩
  | @write s t hcheck hholds hdocument hdiffers =>
    simp only [Decision.apply]
    obtain ⟨hlocked, hdenied⟩ | ⟨hfree, tree', hwritten, hframe⟩ :=
      Candidate.write_eq hthere locks.writing (Utf8.encode t)
    · rw [hdenied]
      exact ⟨.unwritten hcheck hholds hdocument hdiffers hlocked, fun _ _ => rfl⟩
    · simp only [hwritten]
      refine ⟨?_, fun place hne => (hframe place).trans (if_neg hne)⟩
      rw [hframe, if_pos rfl]
      exact .formatted hcheck hholds hdocument hdiffers hfree

/-- A file that fares somehow can be encoded, or is only checked. -/
theorem Fares.encodable {after : Except AccessFault Bytes}
    (h : Fares strict check locks tree c o after) :
    check = true ∨ ¬ c.Unencodable locks.reading tree := by
  have hnot {s t : Text} (hs : c.Holds locks.reading tree s)
      (ht : document s c.extension strict = .ok t) : ¬ c.Unencodable locks.reading tree := by
    rintro ⟨s', hs', hformat⟩
    obtain ⟨e, he⟩ := (document_eq_error_iff strict).2 hformat
    rw [hs'.unique hs, ht] at he
    cases he
  cases h with
  | unread h =>
    refine .inr ?_
    rintro ⟨s, ⟨bytes, hread, -⟩, -⟩
    rw [h] at hread
    cases hread
  | undecoded h hdecode =>
    refine .inr ?_
    rintro ⟨s, ⟨bytes, hread, hdecode'⟩, -⟩
    rw [h] at hread
    cases hread
    rw [hdecode] at hdecode'
    cases hdecode'
  | differs hcheck => exact .inl hcheck
  | unchanged hs ht => exact .inr (hnot hs ht)
  | unwritten _ hs ht => exact .inr (hnot hs ht)
  | formatted _ hs ht => exact .inr (hnot hs ht)

/-! ## A file as it was before the run -/

theorem Fares.congr (h : tree'.read c.place = tree.read c.place) {after : Except AccessFault Bytes}
    (hfares : Fares strict check locks tree' c o after) : Fares strict check locks tree c o after := by
  cases hfares with
  | unread he => exact h ▸ .unread (Candidate.read_congr h ▸ he)
  | undecoded he hdecode => exact h ▸ .undecoded (Candidate.read_congr h ▸ he) hdecode
  | unchanged hs hsame => exact h ▸ .unchanged (hs.congr h) hsame
  | differs hcheck hs hdiffers => exact h ▸ .differs hcheck (hs.congr h) hdiffers
  | unwritten hcheck hs ht hdiffers hlocked =>
    exact h ▸ .unwritten hcheck (hs.congr h) ht hdiffers hlocked
  | formatted hcheck hs ht hdiffers hfree => exact .formatted hcheck (hs.congr h) ht hdiffers hfree

theorem outcome_apply_congr (hthere : tree.read c.place = .ok content)
    (h : tree'.read c.place = tree.read c.place) (d : Decision) (refused : Refused) :
    (d.apply c refused tree').1 = (d.apply c refused tree).1 := by
  unfold Decision.apply
  cases d.bytes with
  | none => rfl
  | some b =>
    obtain ⟨hlocked, hdenied⟩ | ⟨hfree, _, hwritten, -⟩ :=
        Candidate.write_eq hthere refused b <;>
      obtain ⟨hlocked', hdenied'⟩ | ⟨hfree', _, hwritten', -⟩ :=
        Candidate.write_eq (h.trans hthere) refused b
    · simp only [hdenied, hdenied']
    · exact absurd hlocked hfree'
    · exact absurd hlocked' hfree
    · simp only [hwritten, hwritten']

theorem Treated.congr (hthere : tree₁.read c.place = .ok content)
    (h : tree₁.read c.place = tree.read c.place) (htreated : Treated strict check locks tree₁ tree' c o) :
    Treated strict check locks tree tree' c o := by
  refine ⟨?_, htreated.fares.congr h⟩
  have halone := htreated.alone
  simp only [formatCandidates, Candidate.read_congr h] at halone ⊢
  split
  · next he => rw [he] at halone; exact halone
  · next d hd =>
    rw [hd] at halone
    simp only at halone ⊢
    rwa [outcome_apply_congr (h ▸ hthere) h] at halone

/-! ## The run -/

theorem exists_mem_zip {α β : Type} {as : List α} {bs : List β} (h : as.length = bs.length) {a : α}
    (ha : a ∈ as) : ∃ b, (a, b) ∈ as.zip bs := by
  rw [← List.map_fst_zip h.le] at ha
  obtain ⟨⟨_, b⟩, hmem, rfl⟩ := List.mem_map.1 ha
  exact ⟨b, hmem⟩

theorem RunsTo.exists_treated (h : RunsTo strict check locks tree tree' cs os) (hc : c ∈ cs) :
    ∃ o, (c, o) ∈ cs.zip os ∧ Treated strict check locks tree tree' c o := by
  obtain ⟨o, ho⟩ := exists_mem_zip h.treated.length_eq hc
  exact ⟨o, ho, List.forall₂_zip h.treated ho⟩

theorem RunsTo.nil : RunsTo strict check locks tree tree [] [] := ⟨.nil, fun _ _ => rfl⟩

/-- A run goes on with files at other places as if it began with them. -/
theorem RunsTo.cons (hc : Treated strict check locks tree tree₁ c o)
    (hframe : ∀ place, place ≠ c.place → tree₁.read place = tree.read place)
    (hthere : ∀ c ∈ cs, ∃ content, tree₁.read c.place = .ok content)
    (hdistinct : ∀ d ∈ cs, d.place ≠ c.place) (h : RunsTo strict check locks tree₁ tree' cs os) :
    RunsTo strict check locks tree tree' (c :: cs) (o :: os) := by
  have hkept : tree'.read c.place = tree₁.read c.place := h.frame _ hdistinct
  refine ⟨.cons ⟨hc.alone, hkept ▸ hc.fares⟩ ?_, fun place hplace => ?_⟩
  · have hboth : ∀ d ∈ cs, (∃ content, tree₁.read d.place = .ok content) ∧ d.place ≠ c.place :=
      fun d hd => ⟨hthere d hd, hdistinct d hd⟩
    refine ((List.forall₂_and_left _ _).2 ⟨hboth, h.treated⟩).imp ?_
    rintro d o ⟨⟨⟨content, hcontent⟩, hne⟩, htreated⟩
    exact htreated.congr hcontent (hframe _ hne)
  · rw [h.frame place fun d hd => hplace d (List.mem_cons_of_mem _ hd),
      hframe place (hplace c List.mem_cons_self).symm]

/-- A run over files at different places treats each of them, or ends at one that cannot be encoded and
has treated those in front of it. -/
theorem ends_formatCandidates (hdistinct : (cs.map Candidate.place).Nodup)
    (hthere : ∀ c ∈ cs, ∃ content, tree.read c.place = .ok content) :
    Ends strict check locks tree cs (formatCandidates strict check locks tree cs) := by
  -- the tree changes from turn to turn, but not where the files lie whose turn is still to come
  induction cs generalizing tree with
  | nil => exact .returns .nil
  | cons c cs ih =>
    rw [List.map_cons, List.nodup_cons] at hdistinct
    rw [List.forall_mem_cons] at hthere
    obtain ⟨⟨content, hcontent⟩, hthere⟩ := hthere
    have hdecides := decides_decide strict check locks.reading tree c
    rw [formatCandidates]
    cases hd : decide strict check c.extension (c.read locks.reading tree) with
    | error e =>
      rw [hd] at hdecides
      cases hdecides with
      | unencodable hcheck hc => exact .stops rfl hcheck hc .nil
    | ok d =>
      obtain ⟨hfares, hframe⟩ := fares_apply hcontent (hd ▸ hdecides)
      have halone : (formatCandidates strict check locks tree [c]).2 =
          .ok [(d.apply c locks.writing tree).1] := by
        simp only [formatCandidates, hd]
        rfl
      simp only
      generalize d.apply c locks.writing tree = turn at hfares hframe halone
      have hne : ∀ d ∈ cs, d.place ≠ c.place := fun d hd heq =>
        hdistinct.1 (heq ▸ List.mem_map_of_mem hd)
      have hthere' : ∀ d ∈ cs, ∃ content, turn.2.read d.place = .ok content := fun d hd =>
        hframe d.place (hne d hd) ▸ hthere d hd
      have hrest := ih hdistinct.2 hthere'
      generalize formatCandidates strict check locks turn.2 cs = rest at hrest
      cases hrest with
      | returns h => exact .returns (.cons ⟨halone, hfares⟩ hframe hthere' hne h)
      | @stops front back c' _ _ e hcs hcheck hc h =>
        subst hcs
        have hcongr : turn.2.read c'.place = tree.read c'.place :=
          hframe _ (hne c' (by simp))
        exact .stops rfl hcheck (hc.congr hcongr)
          (.cons ⟨halone, hfares⟩ hframe (fun d hd => hthere' d (by simp [hd]))
            (fun d hd => hne d (by simp [hd])) h)

/-! ## The run over a project -/

variable {p : Project} {disk : Disk} {found : Collected}

/-- The files of a project can be listed where its globs are globs and something lies at its place. -/
theorem formatFiles_eq_ok_iff :
    (∃ found, p.formatFiles tree = .ok found) ↔
      (∃ globs, Glob.IgnoreList.compile p.settings.formatter.ignoreGlobs = .ok globs) ∧
        ∃ e, tree.find p.place = .ok e := by
  unfold formatFiles Selection.ofGlobs
  cases Glob.IgnoreList.compile p.settings.formatter.ignoreGlobs with
  | error e => simp [Except.map]
  | ok globs =>
    simp only [Except.map, collect, walk]
    cases tree.find p.place with
    | error fault => simp [Except.mapError]
    | ok e =>
      cases e with
      | folder es => simp [Except.mapError]
      | file content =>
        simp only
        split_ifs <;> simp [Except.mapError]

theorem sound_formatFiles (h : tree.Proper) (hfound : p.formatFiles tree = .ok found) :
    found.Sound tree := by
  unfold formatFiles at hfound
  split at hfound
  · cases hfound
  · next s hs =>
    cases hcollect : collect s p.place tree with
    | error e => rw [hcollect] at hfound; cases hfound
    | ok found' =>
      rw [hcollect] at hfound
      cases hfound
      exact sound_collect h hcollect

theorem ends_formatLocked (h : disk.tree.Proper) (hfound : p.formatFiles disk.tree = .ok found)
    (locks : Locks) (check : Bool) :
    ∃ tree' r, Ends p.settings.formatter.strict check locks disk.tree found.candidates (tree', r) ∧
      p.formatLocked disk locks check =
        ({ disk with tree := tree' }, (r.map Summary.ofOutcomes).mapError .encoding) := by
  have hsound := sound_formatFiles h hfound
  refine ⟨_, _, ends_formatCandidates hsound.distinct hsound.there, ?_⟩
  rw [formatLocked, hfound]

/-- When a format run returns, and what it has done then. It returns where the files of the project can
be listed, unless it is to write one that cannot be encoded. Then there is one outcome for every file in
order, each as if the file were alone; otherwise the run has treated the files in front of that one, and
none behind it. -/
theorem formatLocked_returns_iff (p : Project) {disk : Disk} (h : disk.tree.Proper) (locks : Locks)
    (check : Bool) :
    let strict := p.settings.formatter.strict
    let run := p.formatLocked disk locks check
    ((∃ summary, run.2 = .ok summary) ↔
      (∃ globs, Glob.IgnoreList.compile p.settings.formatter.ignoreGlobs = .ok globs) ∧
        (∃ e, disk.tree.find p.place = .ok e) ∧
        (check = true ∨ ∀ found, p.formatFiles disk.tree = .ok found →
          ∀ c ∈ found.candidates, ¬ c.Unencodable locks.reading disk.tree)) ∧
    ∀ found, p.formatFiles disk.tree = .ok found →
      (∀ summary, run.2 = .ok summary → summary = .ofOutcomes summary.outcomes ∧
        RunsTo strict check locks disk.tree run.1.tree found.candidates summary.outcomes) ∧
      (∀ e, run.2 = .error e → check = false ∧ ∃ front c back os,
        found.candidates = front ++ c :: back ∧ c.Unencodable locks.reading disk.tree ∧
          RunsTo strict check locks disk.tree run.1.tree front os) := by
  intro strict run
  have hends {found : Collected} (hfound : p.formatFiles disk.tree = .ok found) :=
    ends_formatLocked h hfound locks check
  refine ⟨?_, fun found hfound => ?_⟩
  · rw [← and_assoc, ← formatFiles_eq_ok_iff]
    constructor
    · rintro ⟨summary, hrun⟩
      cases hfound : p.formatFiles disk.tree with
      | error e =>
        simp only [run, formatLocked, hfound] at hrun
        cases hrun
      | ok found =>
        obtain ⟨tree', r, hr, heq⟩ := hends hfound
        refine ⟨⟨found, rfl⟩, ?_⟩
        cases hr with
        | stops => simp only [run, heq] at hrun; cases hrun
        | returns hruns =>
          refine or_iff_not_imp_left.2 fun hcheck found' heq' c hc => ?_
          cases heq'
          obtain ⟨o, -, htreated⟩ := hruns.exists_treated hc
          exact htreated.fares.encodable.resolve_left hcheck
    · rintro ⟨⟨found, hfound⟩, hencodable⟩
      obtain ⟨tree', r, hr, heq⟩ := hends hfound
      cases hr with
      | returns => exact ⟨_, congrArg Prod.snd heq⟩
      | @stops front back c _ _ _ hcs hcheck hc =>
        exact absurd hc ((hencodable.resolve_left (by simp [hcheck])) found hfound c (by simp [hcs]))
  · obtain ⟨tree', r, hr, heq⟩ := hends hfound
    simp only [run, heq]
    cases hr with
    | returns hruns =>
      refine ⟨fun summary hsummary => ?_, nofun⟩
      cases hsummary
      exact ⟨rfl, hruns⟩
    | stops hcs hcheck hc hruns => exact ⟨nofun, fun _ _ => ⟨hcheck, _, _, _, _, hcs, hc, hruns⟩⟩

/-- An escape has brought half a surrogate pair into a string of a file. A run that writes gives no
summary and does not reach the file behind it, which a run of its own formats. -/
theorem format_stops_at_half :
    let disk : Disk := ⟨.folder [(lit "a.json", .file (Utf8.encode (lit "\x7b\"a\": \"\\ud800\"\x7d"))),
      (lit "b.json", .file (Utf8.encode (lit "[1]")))], []⟩
    let p : Project := .create [] .default none none none
    let run := p.format disk [] false
    run.2.mapError FormatError.message = .error (lit
      "'utf-8' codec can't encode character '\\ud800' in position 10: surrogates not allowed") ∧
    run.1.tree.read [lit "b.json"] = .ok (Utf8.encode (lit "[1]")) ∧
    (formatCandidates false false ⟨[], []⟩ disk.tree [⟨[lit "b.json"], lit "b.json"⟩]).2 =
      .ok [⟨lit "b.json", .formatted, none⟩] := by
  decide +kernel

/-- A run that only checks those files returns, and one of them cannot be encoded. -/
theorem formatLocked_returns_of_check :
    let disk : Disk := ⟨.folder [(lit "a.json", .file (Utf8.encode (lit "\x7b\"a\": \"\\ud800\"\x7d"))),
      (lit "b.json", .file (Utf8.encode (lit "[1]")))], []⟩
    let p : Project := ⟨[], ⟨1, .default, ⟨[lit ".json"], [], false⟩, .default⟩, none⟩
    disk.tree.Proper ∧ (∃ summary, (p.formatLocked disk ⟨[], []⟩ true).2 = .ok summary) ∧
      ∃ found, p.formatFiles disk.tree = .ok found ∧
        ∃ c ∈ found.candidates, c.Unencodable [] disk.tree := by
  intro disk p
  have hproper : disk.tree.Proper := by
    refine .folder (by decide) fun e he => ?_
    simp only [List.mem_cons, List.not_mem_nil, or_false] at he
    rcases he with rfl | rfl <;> exact .file _
  have hglobs : ∃ globs, Glob.IgnoreList.compile p.settings.formatter.ignoreGlobs = .ok globs :=
    ⟨_, rfl⟩
  obtain ⟨hreturns, -⟩ := formatLocked_returns_iff p hproper ⟨[], []⟩ true
  obtain ⟨-, hruns⟩ := formatLocked_returns_iff p hproper ⟨[], []⟩ false
  obtain ⟨found, hfound⟩ := formatFiles_eq_ok_iff.2 ⟨hglobs, disk.tree, rfl⟩
  refine ⟨hproper, hreturns.2 ⟨hglobs, ⟨disk.tree, rfl⟩, .inl rfl⟩, found, hfound, ?_⟩
  cases hrun : (p.formatLocked disk ⟨[], []⟩ false).2 with
  | ok summary =>
    have hstops : (p.formatLocked disk ⟨[], []⟩ false).2.toOption = none := by decide +kernel
    rw [hrun] at hstops
    cases hstops
  | error e =>
    obtain ⟨-, front, c, back, -, hcs, hc, -⟩ := (hruns found hfound).2 e hrun
    exact ⟨c, by simp [hcs], hc⟩

end Project

end ConfigCare
