import Mathlib.Computability.Language
import Mathlib.Data.List.TakeWhile
import ConfigCare.Proofs.ExpressionReading

/-! Which texts a piece of an expression takes, as a language: the language of pieces one after the other
is the product of theirs. An expression between two anchors matches just the texts of its language. -/

namespace ConfigCare.Regex

open scoped Computability

/-- The place behind a text that is passed over. -/
def Cursor.passed (c : Cursor) (u : Text) : Cursor :=
  ⟨c.offset + u.length, u.reverse ++ c.before, c.after.drop u.length⟩

namespace Cursor

@[simp] theorem passed_nil (c : Cursor) : c.passed [] = c := rfl

@[simp] theorem passed_append (c : Cursor) (u v : Text) : c.passed (u ++ v) = (c.passed u).passed v := by
  simp [passed, Nat.add_assoc]

end Cursor

/-- What is run takes the texts of a language, and then goes on with what has to follow. -/
def Spells (f : Matcher → Matcher) (l : Language Char) : Prop :=
  ∀ k c caps, (f k c caps).isSome = true ↔
    ∃ u ∈ l, u <+: c.after ∧ (k (c.passed u) caps).isSome = true

variable {f g : Matcher → Matcher} {l m : Language Char} {test : Char → Bool} {n : Node}
  {ns ms : List Node}

theorem spells_id : Spells id 1 := by
  intro k c caps
  simp [Language.mem_one]

theorem Spells.comp (hf : Spells f l) (hg : Spells g m) : Spells (fun k => f (g k)) (l * m) := by
  intro k c caps
  rw [hf]
  constructor
  · rintro ⟨u, hu, ⟨s, hs⟩, hrest⟩
    obtain ⟨v, hv, ⟨t, ht⟩, hrun⟩ := (hg _ _ _).1 hrest
    have hafter : (c.passed u).after = s := by rw [Cursor.passed, ← hs, List.drop_left]
    refine ⟨u ++ v, Language.append_mem_mul hu hv, ⟨t, ?_⟩, by rwa [Cursor.passed_append]⟩
    rw [← hs, List.append_assoc, ht, hafter]
  · rintro ⟨w, hw, ⟨t, ht⟩, hrun⟩
    obtain ⟨u, hu, v, hv, rfl⟩ := Language.mem_mul.1 hw
    rw [List.append_assoc] at ht
    refine ⟨u, hu, ⟨v ++ t, ht⟩, (hg _ _ _).2 ⟨v, hv, ⟨t, ?_⟩, by rwa [← Cursor.passed_append]⟩⟩
    rw [Cursor.passed, ← ht, List.drop_left]

/-- The texts of one character that passes a test. -/
def oneOf (test : Char → Bool) : Language Char := {u | ∃ x, u = [x] ∧ test x = true}

/-- The texts of characters that all pass a test. -/
def allOf (test : Char → Bool) : Language Char := {u | ∀ x ∈ u, test x = true}

theorem spells_step (test : Char → Bool) : Spells (step test) (oneOf test) := by
  intro k c caps
  unfold step
  cases hafter : c.after with
  | nil =>
    simp only [Option.isSome_none, Bool.false_eq_true, false_iff]
    rintro ⟨_, ⟨x, rfl, -⟩, hprefix, -⟩
    simp at hprefix
  | cons y ys =>
    have hpassed : c.passed [y] = ⟨c.offset + 1, y :: c.before, ys⟩ := by
      simp [Cursor.passed, hafter]
    simp only
    constructor
    · intro h
      split at h
      · next hy => exact ⟨[y], ⟨y, rfl, hy⟩, ⟨ys, rfl⟩, by rwa [hpassed]⟩
      · cases h
    · rintro ⟨_, ⟨x, rfl, hx⟩, hprefix, hrun⟩
      obtain rfl : x = y := by simpa using hprefix
      rwa [if_pos hx, ← hpassed]

/-- The node of a single character is one step. -/
theorem run_of_test? (h : n.test? = some test) (length : Nat) : n.run length = step test := by
  cases n <;> cases h <;> rfl

/-! ## Repetitions -/

theorem isSome_firstOf {k : Matcher} {caps : Captures} {cs : List Cursor} :
    (firstOf k caps cs).isSome = true ↔ ∃ c ∈ cs, (k c caps).isSome = true := by
  induction cs with
  | nil => simp [firstOf]
  | cons c cs ih =>
    rw [List.exists_mem_cons_iff, ← ih, firstOf]
    cases k c caps <;> simp

/-- The places in reach of an unbounded repetition, the farthest first. -/
theorem run_none_eq (test : Char → Bool) (i : Nat) (c : Cursor) (done : List Cursor) :
    run test none i c.offset c.before done c.after =
      ((List.range (c.after.takeWhile test).length).map
        fun j => c.passed (c.after.take (j + 1))).reverse ++ done := by
  obtain ⟨offset, before, after⟩ := c
  induction after generalizing i offset before done with
  | nil => rfl
  | cons x xs ih =>
    simp only [run, below, Bool.true_and]
    by_cases hx : test x = true
    · have hstep (j : Nat) : Cursor.passed ⟨offset, before, x :: xs⟩ (x :: xs.take j) =
          Cursor.passed ⟨offset + 1, x :: before, xs⟩ (xs.take j) := by
        have hone : Cursor.passed ⟨offset, before, x :: xs⟩ [x] = ⟨offset + 1, x :: before, xs⟩ := rfl
        rw [← hone, ← Cursor.passed_append, List.singleton_append]
      rw [if_pos hx, ih, List.takeWhile_cons_of_pos hx, List.length_cons, List.range_succ_eq_map,
        List.map_cons, List.map_map, List.reverse_cons, List.append_assoc]
      simp only [Function.comp_def, List.take_succ_cons, hstep]
      rfl
    · rw [if_neg hx, List.takeWhile_cons_of_neg hx]
      rfl

theorem runFrom_none_eq (test : Char → Bool) (c : Cursor) :
    runFrom test none c = ((List.range ((c.after.takeWhile test).length + 1)).map
      fun j => c.passed (c.after.take j)).reverse := by
  rw [runFrom, run_none_eq, List.range_succ_eq_map, List.map_cons, List.map_map, List.reverse_cons]
  rfl

theorem spells_repeatChar (test : Char → Bool) (least : Nat) :
    Spells (repeatChar test .greedy least none) {u | least ≤ u.length ∧ u ∈ allOf test} := by
  intro k c caps
  -- The places that are far enough are those behind the prefixes that are long enough.
  have hplace (d : Cursor) : d ∈ (runFrom test none c).take ((runFrom test none c).length - least) ↔
      ∃ j, least ≤ j ∧ j ≤ (c.after.takeWhile test).length ∧ c.passed (c.after.take j) = d := by
    rw [runFrom_none_eq, List.take_reverse, List.mem_reverse, ← List.map_drop, List.mem_map]
    simp only [List.length_reverse, List.length_map, List.range_eq_range', List.length_range',
      List.drop_range', List.mem_range'_1]
    constructor
    · rintro ⟨j, hj, rfl⟩
      exact ⟨j, by omega, by omega, rfl⟩
    · rintro ⟨j, hleast, hmost, rfl⟩
      exact ⟨j, by omega, rfl⟩
  refine isSome_firstOf.trans ?_
  simp only [hplace]
  constructor
  · rintro ⟨_, ⟨j, hleast, hmost, rfl⟩, hrun⟩
    obtain ⟨t, ht⟩ := List.takeWhile_prefix (l := c.after) test
    have htake : c.after.take j = (c.after.takeWhile test).take j := by
      conv_lhs => rw [← ht]
      exact List.take_append_of_le_length hmost
    refine ⟨c.after.take j, ⟨?_, fun x hx => ?_⟩, List.take_prefix _ _, hrun⟩
    · rw [htake, List.length_take]
      omega
    · rw [htake] at hx
      exact List.mem_takeWhile_imp (List.mem_of_mem_take hx)
  · rintro ⟨u, ⟨hleast, hall⟩, ⟨t, ht⟩, hrun⟩
    have hwhile : c.after.takeWhile test = u ++ t.takeWhile test := by
      rw [← ht, List.takeWhile_append_of_pos hall]
    refine ⟨_, ⟨u.length, hleast, ?_, rfl⟩, ?_⟩
    · rw [hwhile, List.length_append]
      exact Nat.le_add_right _ _
    · rwa [← ht, List.take_left]

/-- Runs a body, or else nothing. -/
def orNothing (f : Matcher → Matcher) (k : Matcher) : Matcher := fun c caps =>
  match f k c caps with
  | some r => some r
  | none => k c caps

theorem Spells.orNothing (h : Spells f l) : Spells (orNothing f) (1 + l) := by
  intro k c caps
  simp only [Regex.orNothing, Language.mem_add, Language.mem_one]
  constructor
  · intro hrun
    split at hrun
    · next r hr =>
      obtain ⟨u, hu, hrest⟩ := (h k c caps).1 (by rw [hr]; rfl)
      exact ⟨u, .inr hu, hrest⟩
    · exact ⟨[], .inl rfl, List.nil_prefix, hrun⟩
  · rintro ⟨u, rfl | hu, hprefix, hrun⟩
    · split
      · rfl
      · exact hrun
    · obtain ⟨r, hr⟩ := Option.isSome_iff_exists.1 ((h k c caps).2 ⟨u, hu, hprefix, hrun⟩)
      rw [hr]
      rfl

theorem repeatBody_one (body : Matcher → Matcher) (fuel : Nat) (k : Matcher) :
    repeatBody body false 0 (some 1) k (fuel + 2) 0 none = orNothing body k := by
  funext c caps
  have hlast : repeatBody body false 0 (some 1) k (fuel + 1) (0 + 1) (some c.offset) = k := by
    funext d later
    simp [repeatBody, below]
  rw [repeatBody]
  simp only [hlast]
  rfl

theorem repeatChar_one (test : Char → Bool) (k : Matcher) :
    repeatChar test .greedy 0 (some 1) k = orNothing (step test) k := by
  funext c caps
  have hlast (d : Cursor) : firstOf k caps [d] = k d caps := by
    simp only [firstOf]
    cases k d caps <;> rfl
  obtain ⟨offset, before, after⟩ := c
  cases after with
  | nil => exact hlast _
  | cons x xs =>
    by_cases hx : test x = true
    · have hplaces : runFrom test (some 1) ⟨offset, before, x :: xs⟩ =
          [⟨offset + 1, x :: before, xs⟩, ⟨offset, before, x :: xs⟩] := by
        cases xs <;> simp [runFrom, run, below, hx]
      simp only [repeatChar, hplaces, List.length_cons, Nat.sub_zero, orNothing, step, if_pos hx]
      rw [← hlast ⟨offset, before, x :: xs⟩]
      rfl
    · have hplaces : runFrom test (some 1) ⟨offset, before, x :: xs⟩ =
          [⟨offset, before, x :: xs⟩] := by
        simp [runFrom, run, below, hx]
      simp only [repeatChar, hplaces, List.length_cons, Nat.sub_zero, orNothing, step, if_neg hx]
      exact hlast _

/-! ## Nodes -/

/-- The texts that a node takes wherever it is run. -/
def Node.Takes (n : Node) (l : Language Char) : Prop := ∀ length, Spells (n.run length) l

theorem takes_of_test? (h : n.test? = some test) : n.Takes (oneOf test) := fun length => by
  rw [run_of_test? h]
  exact spells_step test

theorem takes_repeated (h : n.test? = some test) (least : Nat) :
    (Node.repetition .greedy least none n).Takes {u | least ≤ u.length ∧ u ∈ allOf test} :=
  fun length => by
    have hrun : (Node.repetition .greedy least none n).run length =
        repeatChar test .greedy least none := by
      funext k
      rw [Node.run, h]
    rw [hrun]
    exact spells_repeatChar test least

/-- A repetition that takes place once or not at all. -/
theorem takes_missing (hn : n.Takes l) : (Node.repetition .greedy 0 (some 1) n).Takes (1 + l) :=
  fun length => by
    have hrun : (Node.repetition .greedy 0 (some 1) n).run length = orNothing (n.run length) := by
      funext k
      rw [Node.run]
      split
      · next test htest => rw [repeatChar_one, run_of_test? htest]
      · rw [Nat.zero_add, repeatBody_one]
    rw [hrun]
    exact (hn length).orNothing

theorem run_ofList_cons (length : Nat) (n : Node) (ns : List Node) (k : Matcher) :
    (Node.ofList (n :: ns)).run length k = n.run length ((Node.ofList ns).run length k) := by
  cases ns <;> rfl

theorem run_ofList_append (length : Nat) (ns ms : List Node) (k : Matcher) :
    (Node.ofList (ns ++ ms)).run length k =
      (Node.ofList ns).run length ((Node.ofList ms).run length k) := by
  induction ns with
  | nil => rfl
  | cons n ns ih => rw [List.cons_append, run_ofList_cons, ih, run_ofList_cons]

theorem takes_nil : (Node.ofList []).Takes 1 := fun _ => spells_id

theorem takes_append (h : (Node.ofList ns).Takes l) (h' : (Node.ofList ms).Takes m) :
    (Node.ofList (ns ++ ms)).Takes (l * m) := fun length => by
  rw [funext (run_ofList_append length ns ms)]
  exact (h length).comp (h' length)

/-! ## Pieces of expressions -/

/-- A piece of an expression that is at fault, or else takes the texts of a language. -/
def Expresses (depth : Nat) (e : Text) (l : Language Char) : Prop :=
  ∃ ns?, Reads depth e ns? ∧
    ∀ ns, ns? = some ns → (∀ n ∈ ns, n.looksBehindFixed = true) ∧ (Node.ofList ns).Takes l

variable {depth : Nat} {e e' : Text} {c : Char}

theorem expresses_nil (depth : Nat) : Expresses depth [] 1 :=
  ⟨_, .nil depth, fun ns hns => by
    cases hns
    exact ⟨by simp, takes_nil⟩⟩

theorem Expresses.append (h : Expresses depth e l) (h' : Expresses depth e' m) :
    Expresses depth (e ++ e') (l * m) := by
  obtain ⟨ns?, hreads, hns⟩ := h
  obtain ⟨ms?, hreads', hms⟩ := h'
  refine ⟨_, hreads.append hreads', fun ns heq => ?_⟩
  obtain ⟨ns, rfl, heq⟩ := Option.bind_eq_some_iff.1 heq
  obtain ⟨ms, rfl, rfl⟩ := Option.map_eq_some_iff.1 heq
  obtain ⟨hfixed, htakes⟩ := hns ns rfl
  obtain ⟨hfixed', htakes'⟩ := hms ms rfl
  exact ⟨List.forall_mem_append.2 ⟨hfixed, hfixed'⟩, takes_append htakes htakes'⟩

theorem looksBehindFixed_of_test? (h : n.test? = some test) : n.looksBehindFixed = true := by
  cases n <;> cases h <;> rfl

theorem ReadsAtOnce.expresses (h : ReadsAtOnce e n) (htest : n.test? = some test) (depth : Nat) :
    Expresses depth e (oneOf test) :=
  ⟨_, .of_atOnce h depth, fun ns hns => by
    cases hns
    exact ⟨by simpa using looksBehindFixed_of_test? htest, takes_of_test? htest⟩⟩

theorem repeats_of_test? (h : n.test? = some test) : (Part.node n).repeats = true := by
  cases n <;> cases h <;> rfl

/-- A character that is repeated without a bound. -/
theorem ReadsAtOnce.expresses_repeated {least : Nat} (h : ReadsAtOnce e n)
    (htest : n.test? = some test) (hsign : boundsOf? c = some (least, none)) (depth : Nat) :
    Expresses depth (e ++ [c]) {u | least ≤ u.length ∧ u ∈ allOf test} :=
  ⟨_, .repeated h (repeats_of_test? htest) hsign depth, fun ns hns => by
    cases hns
    refine ⟨?_, takes_repeated htest least⟩
    simpa [Node.looksBehindFixed] using looksBehindFixed_of_test? htest⟩

/-- A bare group that may be missing. -/
theorem Expresses.group (h : Expresses (depth + 1) e l) (hdepth : depth < nestingLimit) :
    Expresses depth (Text.lit "(?:" ++ e ++ Text.lit ")?") (1 + l) := by
  obtain ⟨ns?, hreads, hns⟩ := h
  refine ⟨_, hreads.group hdepth, fun ms heq => ?_⟩
  obtain ⟨ns, rfl, rfl⟩ := Option.map_eq_some_iff.1 heq
  obtain ⟨hfixed, htakes⟩ := hns ns rfl
  refine ⟨?_, takes_missing htakes⟩
  simpa [Node.looksBehindFixed] using looksBehindFixed_ofList hfixed

/-! ## Whole expressions -/

theorem matchesStart_eq (p : Pattern) (s : Text) :
    p.matchesStart s = (p.root.run s.length finish (.start s) []).isSome := by
  rw [Pattern.matchesStart, Pattern.matchAt?, Option.isSome_map]
  rfl

/-- Between the two anchors stands what the whole text has to be, if it holds no line break. -/
theorem Expresses.matchesStart_iff {p : Pattern} {s : Text} (h : Expresses 0 e l)
    (hparse : Pattern.parse ('^' :: e ++ ['$']) = .ok p) (hs : '\n' ∉ s) :
    p.matchesStart s = true ↔ s ∈ l := by
  obtain ⟨ns?, hreads, hns⟩ := h
  have hanchors := ((Reads.of_atOnce (readsAtOnce_leaf (c := '^') rfl) 0).append hreads).append
    (.of_atOnce (readsAtOnce_leaf (c := '$') rfl) 0)
  change Pattern.parse (['^'] ++ e ++ ['$']) = .ok p at hparse
  cases ns? with
  | none =>
    have hread := hanchors.toOption_parse nofun
    rw [hparse] at hread
    cases hread
  | some ns =>
    obtain ⟨hfixed, htakes⟩ := hns ns rfl
    have hread := hanchors.toOption_parse fun ms hms n hn => by
      obtain rfl := Option.some.inj hms
      simp only [List.mem_append, List.mem_singleton] at hn
      rcases hn with (rfl | hn) | rfl
      · rfl
      · exact hfixed n hn
      · rfl
    rw [hparse] at hread
    obtain rfl := Option.some.inj hread
    rw [matchesStart_eq, run_ofList_append, run_ofList_append]
    change ((Node.ofList ns).run s.length ((Node.ofList [.anchor Flags.none.mode .lineEnd]).run
      s.length finish) (.start s) []).isSome = true ↔ s ∈ l
    rw [htakes]
    constructor
    · rintro ⟨u, hu, ⟨t, rfl⟩, hend⟩
      have hafter : ((Cursor.start (u ++ t)).passed u).after = t := List.drop_left
      simp only [Node.ofList, Node.run, Anchor.holds, hafter, Flags.none, Flags.mode, finish] at hend
      split at hend
      · next hlast =>
        have ht : t = [] ∨ t = ['\n'] := by simpa using hlast
        rcases ht with rfl | rfl
        · rwa [List.append_nil]
        · exact absurd (by simp) hs
      · cases hend
    · intro hmem
      refine ⟨s, hmem, List.prefix_refl s, ?_⟩
      have hafter : ((Cursor.start s).passed s).after = [] := List.drop_length
      simp [Node.ofList, Node.run, Anchor.holds, hafter, finish]

/-- What is read in one step may be all of an expression, which begins with one character that passes. -/
theorem ReadsAtOnce.matchesStart_eq (h : ReadsAtOnce e n) (htest : n.test? = some test) :
    ∃ p, Pattern.parse e = .ok p ∧ ∀ x, p.matchesStart [x] = test x := by
  have hread := (Reads.of_atOnce h 0).toOption_parse fun ns hns n' hn' => by
    obtain rfl := Option.some.inj hns
    rw [List.mem_singleton.1 hn']
    exact looksBehindFixed_of_test? htest
  refine ⟨⟨n⟩, ?_, fun x => ?_⟩
  · cases hparse : Pattern.parse e with
    | error err =>
      rw [hparse] at hread
      cases hread
    | ok p =>
      rw [hparse] at hread
      exact congrArg Except.ok (Option.some.inj hread)
  · rw [Regex.matchesStart_eq, run_of_test? htest]
    cases hx : test x <;> simp [step, Cursor.start, finish, hx]

end ConfigCare.Regex
