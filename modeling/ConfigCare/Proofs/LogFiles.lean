import ConfigCare.Log.Journal
import ConfigCare.Proofs.Encoding
import ConfigCare.Proofs.LogLines
import ConfigCare.Proofs.Places

/-! The files of a log over time. A handler writes to one place, and to set up the logger leaves it with no
handler but its own. So a file that is opened once gets the records up to the next setup that are kept, a
line each, and no step before or after touches it. -/

namespace ConfigCare

namespace Files.Entry

open Data (lookup? setKey)

variable {place p : List Text} {b content : Bytes} {e e' : Entry}

/-- Nothing lies at a place yet, and a file can be put there. -/
def Vacant (place : List Text) (e : Entry) : Prop :=
  find? place e = none ∧ ∃ e', write [] place e = .ok e'

/-- Below a folder, one of its entries is put in the place of what it was, or is new. -/
theorem write_cons_eq_ok {n : Text} {ns : List Text} (h : write b (n :: ns) e = .ok e') :
    ∃ es x, e = .folder es ∧ e' = .folder (setKey n x es) ∧
      (lookup? n es = none ∧ ns = [] ∧ x = .file b ∨
        ∃ e₁, lookup? n es = some e₁ ∧ write b ns e₁ = .ok x) := by
  cases e with
  | file => cases h
  | folder es =>
    rw [write] at h
    cases hlookup : lookup? n es with
    | none =>
      rw [hlookup] at h
      cases ns with
      | nil => exact ⟨es, .file b, rfl, (Except.ok.inj h).symm, .inl ⟨hlookup, rfl, rfl⟩⟩
      | cons => cases h
    | some e₁ =>
      rw [hlookup] at h
      cases hwrite : write b ns e₁ with
      | error =>
        simp only [hwrite] at h
        cases h
      | ok x =>
        simp only [hwrite] at h
        exact ⟨es, x, rfl, (Except.ok.inj h).symm, .inr ⟨e₁, hlookup, hwrite⟩⟩

theorem read_write_self (h : write b place e = .ok e') : read place e' = .ok b := by
  induction place generalizing e e' with
  | nil =>
    cases e with
    | file => cases h; rfl
    | folder => cases h
  | cons n ns ih =>
    obtain ⟨es, x, rfl, rfl, ⟨-, rfl, rfl⟩ | ⟨e₁, -, hwrite⟩⟩ := write_cons_eq_ok h
    · rw [read_cons, Data.lookup?_setKey_self]
      rfl
    · rw [read_cons, Data.lookup?_setKey_self]
      exact ih hwrite

theorem read_write_of_ne (h : write b place e = .ok e') (hne : p ≠ place)
    (hread : read p e = .ok content) : read p e' = .ok content := by
  induction place generalizing e e' p with
  | nil =>
    cases e with
    | folder => cases h
    | file =>
      cases p with
      | nil => exact absurd rfl hne
      | cons => cases hread
  | cons n ns ih =>
    obtain ⟨es, x, rfl, rfl, hx⟩ := write_cons_eq_ok h
    cases p with
    | nil => cases hread
    | cons m ms =>
      rw [read_cons] at hread ⊢
      by_cases hm : m = n
      · subst hm
        rw [Data.lookup?_setKey_self]
        obtain ⟨hlookup, -⟩ | ⟨e₁, hlookup, hwrite⟩ := hx
        · rw [hlookup] at hread
          cases hread
        · rw [hlookup] at hread
          exact ih hwrite (by simpa using hne) hread
      · rwa [Data.lookup?_setKey_of_ne hm]

theorem vacant_cons {n : Text} {ns : List Text} {es : List (Text × Entry)} :
    Vacant (n :: ns) (.folder es) ↔
      match lookup? n es with
      | none => ns = []
      | some e => Vacant ns e := by
  rw [Vacant, find?, find, write]
  cases lookup? n es with
  | none => cases ns <;> simp [Except.toOption]
  | some e =>
    simp only [Vacant, find?]
    cases write [] ns e <;> simp [Except.map]

theorem Vacant.write (h : Vacant p e) (hwrite : e.write b place = .ok e') (hne : p ≠ place) :
    Vacant p e' := by
  induction p generalizing e e' place with
  | nil => cases h.1
  | cons m ms ih =>
    cases place with
    | nil =>
      obtain ⟨-, e'', hm⟩ := h
      obtain ⟨es, -, rfl, -⟩ := write_cons_eq_ok hm
      cases hwrite
    | cons n ns =>
      obtain ⟨es, x, rfl, rfl, hx⟩ := write_cons_eq_ok hwrite
      rw [vacant_cons] at h ⊢
      by_cases hm : m = n
      · subst hm
        rw [Data.lookup?_setKey_self]
        obtain ⟨hlookup, rfl, -⟩ | ⟨e₁, hlookup, hwrite⟩ := hx
        · rw [hlookup] at h
          exact absurd (congrArg (m :: ·) h) hne
        · rw [hlookup] at h
          exact ih h hwrite (by simpa using hne)
      · rwa [Data.lookup?_setKey_of_ne hm]

end Files.Entry

namespace Log

open Files (Disk AccessError)
open Files.Entry (Vacant)

variable {place : List Text} {d d' d'' : Disk} {file : Text} {j : Journal} {settings : Settings.Logging}
  {verbose : Bool}

/-! ## What is left alone -/

/-- Between two disks nothing has happened to a place. -/
structure Spares (place : List Text) (d d' : Disk) : Prop where
  vacant : Vacant place d.tree → Vacant place d'.tree
  read : ∀ content, d.tree.read place = .ok content → d'.tree.read place = .ok content

theorem Spares.refl (place : List Text) (d : Disk) : Spares place d d := ⟨id, fun _ => id⟩

theorem Spares.trans (h : Spares place d d') (h' : Spares place d' d'') : Spares place d d'' :=
  ⟨h'.vacant ∘ h.vacant, fun content => h'.read content ∘ h.read content⟩

theorem Spares.write {p : List Text} {b : Bytes} {tree : Files.Entry} (hne : place ≠ p)
    (h : d.tree.write b p = .ok tree) : Spares place d { d with tree } :=
  ⟨fun hvacant => hvacant.write h hne, fun _ => Files.Entry.read_write_of_ne h hne⟩

theorem spares_emit (r : Record) {h : Handler} (hne : h ≠ .file place) : Spares place d (h.emit r d) := by
  cases h with
  | terminal => exact .refl place d
  | file p =>
    rw [Handler.emit]
    split
    · split
      · next hwrite => exact .write (fun heq => hne (heq ▸ rfl)) hwrite
      · exact .refl place d
    · exact .refl place d

theorem spares_openLog (hne : place ≠ placeOf d file) (h : openLog d file = .ok d') :
    Spares place d d' := by
  simp only [openLog] at h
  split at h
  · cases h
    exact .refl place _
  · cases h
  · split at h
    · next hwrite =>
      cases h
      exact .write hne hwrite
    · cases h

theorem here_emit (r : Record) (d : Disk) (h : Handler) : (h.emit r d).here = d.here := by
  cases h with
  | terminal => rfl
  | file =>
    rw [Handler.emit]
    split
    · split <;> rfl
    · rfl

theorem here_openLog (h : openLog d file = .ok d') : d'.here = d.here := by
  simp only [openLog] at h
  split at h
  · cases h
    rfl
  · cases h
  · split at h <;> cases h
    rfl

/-- The file that an event opens. -/
def Event.opens? (d : Disk) : Event → Option (List Text)
  | .setUp settings verbose => (Setup.ofSettings settings verbose).file.map (placeOf d)
  | .log _ => none

theorem opens?_congr (h : d'.here = d.here) (e : Event) : e.opens? d' = e.opens? d := by
  have hplace : placeOf d' = placeOf d := by
    funext file
    rw [placeOf, placeOf, h]
  cases e with
  | setUp => rw [Event.opens?, Event.opens?, hplace]
  | log => rfl

theorem foldl_erase_self (hs : List Handler) : hs.foldl List.erase hs = [] := by
  induction hs with
  | nil => rfl
  | cons h hs ih => rwa [List.foldl_cons, List.erase_cons_head]

namespace Journal

theorem run_append (j : Journal) (a b : List Event) : j.run (a ++ b) = (j.run a).run b :=
  List.foldl_append

/-- After a setup there are no handlers but those it asks for. -/
theorem setUp_cases (settings : Settings.Logging) (verbose : Bool) (j : Journal) :
    let s := Setup.ofSettings settings verbose
    let j' := j.step (.setUp settings verbose)
    j'.level = s.level ∧
      (j'.handlers = [.terminal s.display] ∧ j'.disk = j.disk ∨
        ∃ file, s.file = some file ∧ openLog j.disk file = .ok j'.disk ∧
          j'.handlers = [.terminal s.display, .file (placeOf j'.disk file)]) := by
  intro s j'
  simp only [j', s, step, setUp, foldl_erase_self]
  split
  · exact ⟨rfl, .inl ⟨rfl, rfl⟩⟩
  · next file hfile =>
    split
    · exact ⟨rfl, .inl ⟨rfl, rfl⟩⟩
    · next disk hopen => exact ⟨rfl, .inr ⟨file, hfile, hopen, rfl⟩⟩

theorem spares_setUp (h : (Event.setUp settings verbose).opens? j.disk ≠ some place) :
    Spares place j.disk (j.step (.setUp settings verbose)).disk ∧
      .file place ∉ (j.step (.setUp settings verbose)).handlers := by
  obtain ⟨-, ⟨hhandlers, hdisk⟩ | ⟨file, hfile, hopen, hhandlers⟩⟩ := setUp_cases settings verbose j
  · rw [hhandlers, hdisk]
    exact ⟨.refl _ _, by simp⟩
  · have hne : place ≠ placeOf j.disk file := by
      rintro rfl
      exact h (by rw [Event.opens?, hfile]; rfl)
    have hspares := spares_openLog hne hopen
    refine ⟨hspares, ?_⟩
    rw [hhandlers]
    simpa [placeOf, here_openLog hopen] using hne

theorem spares_log (r : Record) (h : .file place ∉ j.handlers) :
    Spares place j.disk (j.log r).disk ∧ (j.log r).handlers = j.handlers := by
  unfold log
  split
  · have hall : ∀ (hs : List Handler) (d : Disk), .file place ∉ hs →
        Spares place d (hs.foldl (fun d h => h.emit r d) d) := by
      intro hs
      induction hs with
      | nil => exact fun d _ => .refl place d
      | cons h hs ih =>
        intro d hnot
        rw [List.mem_cons, not_or] at hnot
        exact (spares_emit r (Ne.symm hnot.1)).trans (ih _ hnot.2)
    exact ⟨hall _ _ h, rfl⟩
  · exact ⟨.refl _ _, rfl⟩

theorem here_step (j : Journal) (e : Event) : (j.step e).disk.here = j.disk.here := by
  cases e with
  | setUp settings verbose =>
    obtain ⟨-, ⟨-, hdisk⟩ | ⟨file, -, hopen, -⟩⟩ := setUp_cases settings verbose j
    · rw [hdisk]
    · exact here_openLog hopen
  | log r =>
    rw [step, log]
    split
    · exact List.foldlRecOn j.handlers _ (motive := fun d : Disk => d.here = j.disk.here) rfl
        fun d hd h _ => (here_emit r d h).trans hd
    · rfl

theorem here_run (j : Journal) (events : List Event) : (j.run events).disk.here = j.disk.here := by
  induction events generalizing j with
  | nil => rfl
  | cons e events ih => exact (ih (j.step e)).trans (here_step j e)

/-- A file that no handler has open is left alone, until an event opens it. -/
theorem spares_run {events : List Event} (h : .file place ∉ j.handlers)
    (hopens : ∀ e ∈ events, e.opens? j.disk ≠ some place) :
    Spares place j.disk (j.run events).disk ∧ .file place ∉ (j.run events).handlers := by
  induction events generalizing j with
  | nil => exact ⟨.refl _ _, h⟩
  | cons e events ih =>
    rw [List.forall_mem_cons] at hopens
    have hstep : Spares place j.disk (j.step e).disk ∧ .file place ∉ (j.step e).handlers := by
      cases e with
      | setUp => exact spares_setUp hopens.1
      | log r =>
        obtain ⟨hspares, hhandlers⟩ := spares_log r h
        exact ⟨hspares, hhandlers ▸ h⟩
    obtain ⟨hspares, hclosed⟩ := hstep
    obtain ⟨hspares', hclosed'⟩ := ih hclosed fun e he => opens?_congr (here_step j _) e ▸ hopens.2 e he
    exact ⟨hspares.trans hspares', hclosed'⟩

end Journal

/-! ## What is written -/

theorem effectiveLevel_pos (settings : Settings.Logging) (verbose : Bool) :
    0 < effectiveLevel (Setup.ofSettings settings verbose).level := by
  have hnamed : ∀ l ∈ levelNames, 0 ≤ l.1 := by decide
  have hlevel : 0 ≤ (Setup.ofSettings settings verbose).level := by
    unfold Setup.ofSettings
    simp only [levelOfName?]
    split_ifs
    · decide
    · decide
    · decide
    · cases hfind : levelNames.find? fun l => l.2 = upper settings.level with
      | none => decide
      | some l => exact hnamed l (List.mem_of_find?_eq_some hfind)
  unfold effectiveLevel
  split_ifs with hzero
  · decide
  · omega

theorem encode_append (a b : Text) : Utf8.encode (a ++ b) = Utf8.encode a ++ Utf8.encode b :=
  List.flatMap_append

/-- The logger writes to a file, which holds some lines. -/
structure WritesTo (place : List Text) (lines : List Text) (j : Journal) : Prop where
  handlers : ∃ display, j.handlers = [.terminal display, .file place]
  content : j.disk.tree.read place = .ok (Utf8.encode (Text.terminated lines))

theorem openLog_of_vacant (h : Vacant (placeOf d file) d.tree) :
    ∃ d', openLog d file = .ok d' ∧ d'.here = d.here ∧ d'.tree.read (placeOf d file) = .ok [] := by
  obtain ⟨hnone, tree, hwrite⟩ := h
  have hread := Files.Entry.read_write_self hwrite
  rw [Files.Entry.find?] at hnone
  simp only [openLog, hwrite]
  cases hfind : d.tree.find (placeOf d file) with
  | error => exact ⟨{ d with tree }, rfl, rfl, hread⟩
  | ok =>
    rw [hfind] at hnone
    cases hnone

theorem writesTo_setUp (hfile : (Setup.ofSettings settings verbose).file = some file)
    (h : Vacant (placeOf j.disk file) j.disk.tree) :
    WritesTo (placeOf j.disk file) [] (j.step (.setUp settings verbose)) := by
  obtain ⟨d', hopen, hhere, hread⟩ := openLog_of_vacant h
  simp only [Journal.step, Journal.setUp, foldl_erase_self, hfile, hopen]
  exact ⟨⟨_, by rw [placeOf, hhere]; rfl⟩, hread⟩

theorem Journal.level_log (r : Record) (j : Journal) : (j.log r).level = j.level := by
  unfold log
  split <;> rfl

theorem Journal.keeps_log (r : Record) (j : Journal) : (j.log r).keeps = j.keeps := by
  funext r'
  rw [keeps, keeps, level_log]

/-- After a setup the level of a record alone decides. -/
theorem Journal.keeps_setUp (settings : Settings.Logging) (verbose : Bool) (j : Journal) (r : Record) :
    let j' := j.step (.setUp settings verbose)
    j'.keeps r = (isBelowRoot r.logger && effectiveLevel j'.level ≤ r.level) := by
  intro j'
  have hpos : 0 < effectiveLevel j'.level :=
    (setUp_cases settings verbose j).1 ▸ effectiveLevel_pos settings verbose
  rw [keeps, Bool.and_assoc, ← Bool.decide_and]
  congr 2
  exact propext ⟨And.right, fun h => ⟨by omega, h⟩⟩

namespace WritesTo

variable {lines : List Text} {r : Record} {l : Text} {records : List Record}

/-- A record that is kept puts its line behind those that are there. -/
theorem log (h : WritesTo place lines j) (hline : r.line = .ok l) :
    WritesTo place (lines ++ if j.keeps r then [l] else []) (j.log r) := by
  obtain ⟨⟨display, hhandlers⟩, hcontent⟩ := h
  unfold Journal.log
  split
  · obtain ⟨tree, hwrite, hread⟩ := Files.Entry.write_of_read hcontent
      (Utf8.encode (Text.terminated lines) ++ Utf8.encode (l ++ ['\n']))
    have hemit : (Handler.file place).emit r j.disk = { j.disk with tree } := by
      simp only [Handler.emit, hline, hcontent, hwrite]
    refine ⟨⟨display, hhandlers⟩, ?_⟩
    simp only [hhandlers, List.foldl_cons, List.foldl_nil, Handler.emit] at hemit ⊢
    rw [hemit, hread, if_pos rfl, Text.terminated_append, ← encode_append]
    simp
  · exact ⟨⟨display, hhandlers⟩, by simpa using hcontent⟩

/-- One record after another, the file gets the lines of those that are kept. -/
theorem run (h : WritesTo place lines j) (hfits : ∀ r ∈ records, ∃ message, r.text = .ok message) :
    ∃ new, WritesTo place (lines ++ new) (j.run (records.map .log)) ∧ (∀ l ∈ new, '\n' ∉ l) ∧
      List.Forall₂ Tells new (records.filter j.keeps) := by
  induction records generalizing j lines with
  | nil => exact ⟨[], (List.append_nil lines).symm ▸ h, by simp, .nil⟩
  | cons r records ih =>
    rw [List.forall_mem_cons] at hfits
    obtain ⟨⟨message, htext⟩, hfits⟩ := hfits
    obtain ⟨l, hline, hone, htells⟩ := Record.exists_line htext
    obtain ⟨new, hnew, hlines, htold⟩ := ih (h.log hline) hfits
    rw [Journal.keeps_log] at htold
    refine ⟨(if j.keeps r then [l] else []) ++ new, ?_, ?_, ?_⟩
    · rw [← List.append_assoc]
      exact hnew
    · split <;> simpa [hone] using hlines
    · rw [List.filter_cons]
      split
      · exact .cons htells htold
      · exact htold

/-- From the next setup on, the file stays as it is. -/
theorem read_run {after : List Event} (h : WritesTo place lines j)
    (hnext : ∀ e ∈ after.head?, ∃ settings verbose, e = .setUp settings verbose)
    (hopens : ∀ e ∈ after, e.opens? j.disk ≠ some place) :
    (j.run after).disk.tree.read place = .ok (Utf8.encode (Text.terminated lines)) := by
  cases after with
  | nil => exact h.content
  | cons e events =>
    rw [List.forall_mem_cons] at hopens
    obtain ⟨settings, verbose, rfl⟩ := hnext e rfl
    obtain ⟨hspares, hclosed⟩ := Journal.spares_setUp hopens.1
    have hrest := Journal.spares_run hclosed fun e he =>
      opens?_congr (Journal.here_step j _) e ▸ hopens.2 e he
    exact (hspares.trans hrest.1).read _ h.content

end WritesTo

open Journal in
/-- However often the logger is set up, the file of one setup holds the records that the program makes
between it and the next one, as far as their level is at least the one that the logger has then: each of
them once, in order and on one line that tells the record. The file is new, and no other setup opens it. -/
theorem log_file_holds_window {disk : Disk} {before after : List Event} {settings : Settings.Logging}
    {verbose : Bool} {file : Text} {records : List Record}
    (hfile : (Setup.ofSettings settings verbose).file = some file)
    (hvacant : Vacant (placeOf disk file) disk.tree)
    (hother : ∀ e ∈ before ++ after, e.opens? disk ≠ some (placeOf disk file))
    (hnext : ∀ e ∈ after.head?, ∃ settings verbose, e = .setUp settings verbose)
    (hfits : ∀ r ∈ records, ∃ message, r.text = .ok message) :
    let setup := .setUp settings verbose
    let level := effectiveLevel ((fresh disk).run (before ++ [setup])).level
    let kept := records.filter fun r => isBelowRoot r.logger && level ≤ r.level
    let last := (fresh disk).run (before ++ setup :: records.map .log ++ after)
    ∃ content text lines, last.disk.tree.read (placeOf disk file) = .ok content ∧
      Utf8.decode content = .ok text ∧ Text.splitOn '\n' text = lines ++ [[]] ∧
      List.Forall₂ Tells lines kept := by
  intro setup level kept last
  obtain ⟨hbefore, hafter⟩ := List.forall_mem_append.1 hother
  let j := (fresh disk).run before
  have hplace : placeOf j.disk file = placeOf disk file := by
    rw [placeOf, here_run]
    rfl
  have hstart := (spares_run (j := fresh disk) (by simp [fresh]) hbefore).1
  have hset : WritesTo (placeOf disk file) [] (j.step setup) :=
    hplace ▸ writesTo_setUp hfile (hplace.symm ▸ hstart.vacant hvacant)
  obtain ⟨lines, hwritten, hone, htold⟩ := hset.run hfits
  have hkept : records.filter (j.step setup).keeps = kept := by
    refine List.filter_congr fun r _ => (keeps_setUp settings verbose j r).trans ?_
    simp only [level, run_append]
    rfl
  have hlast : last = ((j.step setup).run (records.map .log)).run after := by
    simp only [last, run_append]
    rfl
  have hread : last.disk.tree.read (placeOf disk file) = .ok (Utf8.encode (Text.terminated lines)) := by
    have hhere : ((j.step setup).run (records.map .log)).disk.here = disk.here := by
      rw [here_run, here_step, here_run]
      rfl
    rw [hlast]
    exact hwritten.read_run hnext fun e he => opens?_congr hhere e ▸ hafter e he
  refine ⟨_, _, lines, hread, Utf8.decode_encode _, ?_, hkept ▸ htold⟩
  have hsplit := Text.splitOn_terminated_append hone []
  rwa [List.append_nil] at hsplit

open Text in
/-- Of three records, one is below the level of the second setup, and one is not of the program. -/
theorem log_file_holds_window_of_second_setup :
    let second : Settings.Logging := ⟨lit "warning", lit "json", some (lit "b.log")⟩
    let time := Binary64.ofFraction false 1 2
    let r : Record := ⟨40, lit "config_warden.core", lit "100%%\n\"%s\"", [.text (lit "x")], time, none⟩
    let disk : Disk := ⟨.folder [], []⟩
    let before := [.setUp ⟨lit "DEBUG", lit "json", some (lit "a.log")⟩ false, .log r]
    let records := [⟨20, lit "config_warden", lit "%d", [.int 3], time, none⟩, r,
      ⟨50, lit "other", lit "%", [], time, none⟩]
    let after := [.setUp ⟨lit "x", lit "console", none⟩ true, .log r]
    let last := (Journal.fresh disk).run (before ++ .setUp second false :: records.map .log ++ after)
    ∃ content text line, last.disk.tree.read [lit "b.log"] = .ok content ∧
      Utf8.decode content = .ok text ∧ splitOn '\n' text = [line, []] ∧ Tells line r := by
  intro second time r disk before records after last
  have hfile : (Setup.ofSettings second false).file = some (lit "b.log") := rfl
  have hother : ∀ e ∈ before ++ after, e.opens? disk ≠ some [lit "b.log"] := by decide
  have hnext : ∀ e ∈ after.head?, ∃ settings verbose, e = .setUp settings verbose := by
    rintro _ ⟨⟩
    exact ⟨_, _, rfl⟩
  have hfits : ∀ r ∈ records, ∃ message, r.text = .ok message := by
    simp only [records, List.forall_mem_cons]
    exact ⟨⟨_, rfl⟩, ⟨_, rfl⟩, ⟨_, rfl⟩, by simp⟩
  obtain ⟨content, text, lines, hread, htext, hsplit, htold⟩ :=
    log_file_holds_window hfile ⟨rfl, _, rfl⟩ hother hnext hfits
  have htold : List.Forall₂ Tells lines [r] := htold
  obtain ⟨line, rest, hline, hrest, rfl⟩ := List.forall₂_cons_right_iff.1 htold
  obtain rfl := List.forall₂_nil_right_iff.1 hrest
  exact ⟨content, text, line, hread, htext, hsplit, hline⟩

end Log

end ConfigCare
