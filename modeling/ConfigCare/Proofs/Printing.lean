import Mathlib
import ConfigCare.Command.Execute

/-! What can be printed, and what actions come to that only read and print. A print is refused for a
character that the encoding of standard output does not have; it leaves the disk as it is, and what was
printed before does not matter for it. Of a summary in which every task has passed only the check mark
can be refused. -/

namespace ConfigCare.Command

open Files Report

/-! ## Printing -/

/-- Prints texts, each of them if all of it can be encoded. -/
def printAll (e : Encoding) : List Screen.Print → Except Text Unit
  | [] => .ok ()
  | t :: ts => do
    e.print t
    printAll e ts

/-- Only characters beyond ASCII can be missing in an encoding. -/
theorem has_of_isAscii (e : Encoding) {c : Char} (hc : Encoding.isAscii c = true) :
    e.has c = true := by
  cases e <;> simp [Encoding.has, hc]

theorem all_text (e : Encoding) (t : Screen.Print) :
    t.text.all e.has = t.all fun l => l.all e.has := by
  simp [Screen.Print.text, List.all_flatMap, has_of_isAscii e (c := '\n') rfl]

theorem printAll_eq_ok_iff (e : Encoding) (ts : List Screen.Print) :
    printAll e ts = .ok () ↔ ∀ t ∈ ts, ∀ l ∈ t, ∀ c ∈ l, e.has c = true := by
  induction ts with
  | nil => simp [printAll]
  | cons t ts ih =>
    have ht : e.print t = .ok () ↔ ∀ l ∈ t, ∀ c ∈ l, e.has c = true := by
      simp [Encoding.print, all_text]
    cases h : e.print t with
    | error m =>
      have hne : ¬ ∀ l ∈ t, ∀ c ∈ l, e.has c = true := by rw [← ht, h]; nofun
      simp [printAll, h, bind, Except.bind, hne]
    | ok =>
      have hhas := ht.1 h
      simp only [printAll, h, bind, Except.bind, ih, List.forall_mem_cons]
      exact ⟨fun hts => ⟨hhas, hts⟩, And.right⟩

/-- An encoding that has every character refuses nothing. -/
theorem printAll_of_forall_has {e : Encoding} (he : ∀ c, e.has c = true) (ts : List Screen.Print) :
    printAll e ts = .ok () :=
  (printAll_eq_ok_iff e ts).2 fun _ _ _ _ c _ => he c

theorem mem_expandTabs_iff {c : Char} (hc : Encoding.isAscii c = false) (column : Nat) (s : Text) :
    c ∈ Screen.expandTabs column s ↔ c ∈ s := by
  have hne (d : Char) (hd : Encoding.isAscii d = true) : c ≠ d := by rintro rfl; simp [hd] at hc
  induction s generalizing column with
  | nil => simp [Screen.expandTabs]
  | cons d s ih =>
    simp only [Screen.expandTabs]
    split
    · next h => simp [h, ih, hne ' ' rfl, hne '\t' rfl]
    · simp [ih]

theorem mem_splitOn_go {sep c : Char} (hc : c ≠ sep) (piece s : Text) :
    (∃ l ∈ Text.splitOn.go sep piece s, c ∈ l) ↔ c ∈ piece ∨ c ∈ s := by
  induction s generalizing piece with
  | nil => simp [Text.splitOn.go]
  | cons d s ih =>
    simp only [Text.splitOn.go]
    split
    · next h => simp [h, ih, hc]
    · simp only [ih, List.mem_cons, or_left_comm, or_assoc]

/-- Characters beyond ASCII are printed as they are. -/
theorem mem_lines_iff {c : Char} (hc : Encoding.isAscii c = false) (s : Text) :
    (∃ l ∈ Screen.lines s, c ∈ l) ↔ c ∈ s := by
  have hdropped : Screen.isDropped c = false := by
    simp only [Encoding.isAscii, decide_eq_false_iff_not] at hc
    simp [Screen.isDropped]
    omega
  have hne : c ≠ '\n' := by rintro rfl; exact absurd hc (by decide)
  simp [Screen.lines, mem_expandTabs_iff hc, Text.splitOn, mem_splitOn_go hne, hdropped]

/-! ## The summary -/

theorem all_isAscii_number (n : Nat) : (Console.number n).all Encoding.isAscii = true := by
  rw [Console.number, Text.lit, Nat.toString_eq_repr, Nat.repr_eq_ofList_toDigits,
    String.toList_ofList, List.all_eq_true]
  intro c hc
  have hdigit := Nat.isDigit_of_mem_toDigits (by decide) (by decide) hc
  simp only [Char.isDigit, Bool.and_eq_true, decide_eq_true_eq, ge_iff_le, UInt32.le_iff_toNat_le]
    at hdigit
  exact decide_eq_true (lt_of_le_of_lt hdigit.2 (by decide))

theorem all_isAscii_duration (ms : Binary64) :
    (Console.duration ms).all Encoding.isAscii = true := by
  cases ms with
  | finite negative m e =>
    have hunit : (Text.lit "ms").all Encoding.isAscii = true := by decide
    cases negative <;> simp [Console.duration, all_isAscii_number, hunit, -List.all_eq_true]
    rfl
  | infinite negative => cases negative <;> decide
  | notANumber => decide

/-- The line of a task that has passed has its check mark besides ASCII. -/
theorem mem_task_iff {name : Text} (hname : name.all Encoding.isAscii = true) (ms : Binary64)
    {c : Char} (hc : Encoding.isAscii c = false) :
    (∃ l ∈ Console.task ⟨name, true, ms, none⟩, c ∈ l) ↔ c = '✓' := by
  have hnot {s : Text} (hs : s.all Encoding.isAscii = true) : c ∉ s := fun h =>
    absurd (List.all_eq_true.1 hs c h) (by simp [hc])
  have hmark : c ∈ Text.lit "✓ " ↔ c = '✓' := by
    have hblank : c ≠ ' ' := by rintro rfl; exact absurd hc (by decide)
    simp [show Text.lit "✓ " = ['✓', ' '] from rfl, hblank]
  rw [Console.task, mem_lines_iff hc]
  simp [hnot hname, hnot (all_isAscii_duration ms), hnot (s := Text.lit "  ") rfl,
    show c ≠ ' ' from fun h => hnot (s := [' ']) rfl (by simp [h]),
    show c ≠ ':' from fun h => hnot (s := [':']) rfl (by simp [h]), hmark]

/-- Of a summary in which all has passed, the check mark is what an encoding can lack. -/
theorem printAll_taskSummary (e : Encoding) {rs : List (Text × Bool × Nat)}
    (hnames : ∀ r ∈ rs, r.1.all Encoding.isAscii = true) (hpassed : rs.all (·.2.1) = true)
    (hne : rs ≠ []) :
    printAll e (taskSummary e.frames rs) = .ok () ↔ e.has '✓' = true := by
  by_cases hutf : e = .utf
  · subst hutf
    exact iff_of_true (printAll_of_forall_has (fun _ => rfl) _) rfl
  have hframes : e.frames = .ascii := by cases e <;> first | rfl | exact absurd rfl hutf
  rw [List.all_eq_true] at hpassed
  have htasks : taskSummary e.frames rs = Console.header .ascii (Text.lit "Summary") ++
      rs.map (fun r => Console.task ⟨r.1, true, milliseconds r.2.2, none⟩) ++
      [Console.emptyLine,
        [Text.lit "Total time: " ++
          Console.duration (milliseconds (rs.foldl (fun t r => t + r.2.2) 0))],
        [Text.lit "Success: " ++ Console.number rs.length ++ '/' :: Console.number rs.length]] := by
    have hcount : rs.countP (·.2.1) = rs.length := List.countP_eq_length.2 hpassed
    simp only [taskSummary, Console.taskSummary, hframes, List.map_map, List.countP_map,
      Function.comp_def, List.length_map, hcount]
    rw [List.map_congr_left fun r hr => by rw [hpassed r hr, if_pos rfl]]
  rw [printAll_eq_ok_iff, htasks]
  constructor
  · intro h
    obtain ⟨r, hr⟩ := List.exists_mem_of_ne_nil rs hne
    obtain ⟨l, hl, hc⟩ := (mem_task_iff (hnames r hr) (milliseconds r.2.2) (by decide)).2 rfl
    exact h _ (List.mem_append_left _ (List.mem_append_right _ (List.mem_map_of_mem hr))) l hl _ hc
  · intro hmark t ht l hl c hc
    have hplain {ts : List Screen.Print}
        (hts : ts.all (·.all (·.all Encoding.isAscii)) = true) (ht : t ∈ ts) : e.has c = true :=
      has_of_isAscii e (List.all_eq_true.1
        (List.all_eq_true.1 (List.all_eq_true.1 hts t ht) l hl) c hc)
    rcases List.mem_append.1 ht with ht | ht
    · rcases List.mem_append.1 ht with ht | ht
      · exact hplain (by decide +kernel) ht
      · obtain ⟨r, hr, rfl⟩ := List.mem_map.1 ht
        cases hascii : Encoding.isAscii c with
        | true => exact has_of_isAscii e hascii
        | false =>
          rw [(mem_task_iff (hnames r hr) (milliseconds r.2.2) hascii).1 ⟨l, hl, hc⟩]
          exact hmark
    · refine hplain ?_ ht
      have htotal : (Text.lit "Total time: ").all Encoding.isAscii = true := by decide
      have hsuccess : (Text.lit "Success: ").all Encoding.isAscii = true := by decide
      simp [Console.emptyLine, all_isAscii_duration, all_isAscii_number, htotal, hsuccess,
        -List.all_eq_true]
      rfl

/-! ## Actions that only read -/

/-- An action leaves the disk as it is, and comes to what the disk makes of it. -/
structure Reads {α : Type} (a : Action α) (r : Disk → Except Text α) : Prop where
  result : ∀ q, (a q).2 = r q.disk
  disk : ∀ q, (a q).1.disk = q.disk

namespace Reads

variable {α β : Type}

theorem pure (x : α) : Reads (Pure.pure x) fun _ => .ok x := ⟨fun _ => rfl, fun _ => rfl⟩

theorem succeed {ε : Type} (message : ε → Text) (r : Except ε α) :
    Reads (succeed message r) fun _ => r.mapError message := ⟨fun _ => rfl, fun _ => rfl⟩

theorem theDisk : Reads theDisk fun d => .ok d := ⟨fun _ => rfl, fun _ => rfl⟩

theorem bind {a : Action α} {f : α → Action β} {r : Disk → Except Text α}
    {g : α → Disk → Except Text β} (ha : Reads a r) (hf : ∀ x, Reads (f x) (g x)) :
    Reads (a >>= f) fun d => r d >>= fun x => g x d := by
  have hbind (q : Progress) : ((a >>= f) q).2 = (r q.disk >>= fun x => g x q.disk) ∧
      ((a >>= f) q).1.disk = q.disk := by
    have hr := ha.result q
    have hd := ha.disk q
    change (Action.andThen a f q).2 = _ ∧ (Action.andThen a f q).1.disk = _
    rw [Action.andThen, ← hr, ← hd]
    obtain ⟨q', e | x⟩ := a q
    · exact ⟨rfl, rfl⟩
    · exact ⟨(hf x).result q', (hf x).disk q'⟩
  exact ⟨fun q => (hbind q).1, fun q => (hbind q).2⟩

theorem congr {a : Action α} {r s : Disk → Except Text α} (h : Reads a r) (hrs : ∀ d, r d = s d) :
    Reads a s := ⟨fun q => (h.result q).trans (hrs _), h.disk⟩

theorem makeConsole (w : World) : Reads (makeConsole w) fun _ => openConsole w.environment :=
  (succeed id _).congr fun _ => by cases openConsole w.environment <;> rfl

theorem say (e : Encoding) (ts : List Screen.Print) : Reads (say e ts) fun _ => printAll e ts := by
  induction ts with
  | nil => exact pure ()
  | cons t ts ih =>
    have hrest : Reads (fun p => Command.say e ts { p with printed := p.printed ++ t })
        fun _ => printAll e ts :=
      ⟨fun p => ih.result _, fun p => ih.disk _⟩
    exact ((succeed id (e.print t)).bind fun _ => hrest).congr fun _ => by
      cases h : e.print t <;> simp [printAll, h, Except.mapError, Bind.bind, Except.bind]

end Reads

end ConfigCare.Command
