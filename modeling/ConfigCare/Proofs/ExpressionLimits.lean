import Mathlib.Data.List.Infix
import ConfigCare.Proofs.ExpressionReading

/-! What it takes for an expression to be refused. A step of the reading is refused only at a number,
at the code of a character, or at a group that stands too deep, and each of them is there in the text;
so a text in which there are none of them is read, or is malformed, but not refused. -/

namespace ConfigCare.Regex

open Text

/-! ## What holds after a reading that is not refused -/

/-- The reading is not refused, and if it succeeds, what it gives and leaves satisfies `Q`. -/
def Runs {α : Type} (x : Parser α) (s : Reading) (Q : α → Reading → Prop) : Prop :=
  match x.run s with
  | .ok (a, s') => Q a s'
  | .error e => ∀ cause, e ≠ .refused cause

section
variable {α β : Type} {s s' : Reading} {x y : Parser α} {f : α → Parser β} {Q R : α → Reading → Prop}

theorem Runs.mono (h : Runs x s R) (hQ : ∀ a s', R a s' → Q a s') : Runs x s Q := by
  unfold Runs at h ⊢
  cases hrun : x.run s with
  | error e => rwa [hrun] at h
  | ok p => rw [hrun] at h; exact hQ _ _ h

@[simp] theorem runs_pure {a : α} : Runs (pure a) s Q ↔ Q a s := .rfl

@[simp] theorem runs_get {Q : Reading → Reading → Prop} : Runs get s Q ↔ Q s s := .rfl

@[simp] theorem runs_set {Q : PUnit → Reading → Prop} : Runs (set s') s Q ↔ Q ⟨⟩ s' := .rfl

@[simp] theorem runs_modify {g : Reading → Reading} {Q : PUnit → Reading → Prop} :
    Runs (modify g) s Q ↔ Q ⟨⟩ (g s) := .rfl

@[simp] theorem runs_malformed : Runs (malformed : Parser α) s Q ↔ True :=
  iff_true_intro fun _ h => by cases h

@[simp] theorem runs_bind {Q : β → Reading → Prop} :
    Runs (x >>= f) s Q ↔ Runs x s fun a s' => Runs (f a) s' Q := by
  unfold Runs
  rw [StateT.run_bind]
  cases x.run s <;> rfl

@[simp] theorem runs_ite {p : Prop} [Decidable p] :
    Runs (if p then x else y) s Q ↔ (p → Runs x s Q) ∧ (¬ p → Runs y s Q) := by
  by_cases hp : p <;> simp [hp]

end

/-! ## Steps that are never refused -/

/-- A step of the reading: the text is read further, and the flags of the expression stay. -/
structure Reading.Moves (s s' : Reading) : Prop where
  rest : s'.rest <:+ s.rest
  flags : s'.flags = s.flags

namespace Reading.Moves

variable {s s' s'' : Reading}

theorem refl (s : Reading) : s.Moves s := ⟨List.suffix_refl _, rfl⟩

theorem trans (h : s.Moves s') (h' : s'.Moves s'') : s.Moves s'' :=
  ⟨h'.rest.trans h.rest, h'.flags.trans h.flags⟩

theorem onto {rest : Text} (h : rest <:+ s.rest) : s.Moves (s.onto rest) := ⟨h, rfl⟩

end Reading.Moves

/-- A reading that is never refused, and does nothing but read further. -/
def Calm {α : Type} (x : Parser α) : Prop := ∀ s, Runs x s fun _ s' => s.Moves s'

section
variable {α β : Type} {s : Reading} {x y : Parser α} {f : α → Parser β} {f' : β → Parser α}

theorem calm_pure (a : α) : Calm (pure a) := fun s => .refl s

theorem calm_malformed : Calm (malformed : Parser α) := fun _ => runs_malformed.2 trivial

theorem Calm.bind (hx : Calm x) (hf : ∀ a, Calm (f a)) : Calm (x >>= f) := fun s =>
  runs_bind.2 ((hx s).mono fun a s' hs' => (hf a s').mono fun _ _ hs'' => hs'.trans hs'')

theorem Calm.ite {p : Prop} [Decidable p] (hx : Calm x) (hy : Calm y) :
    Calm (if p then x else y) := by
  split
  · exact hx
  · exact hy

/-- A test that may end the reading. -/
theorem Calm.guard {p : Prop} [Decidable p] (hx : Calm x) : Calm (if p then malformed >>= f' else x) :=
  .ite (fun _ => runs_bind.2 (runs_malformed.2 trivial)) hx

theorem calm_get : Calm get := .refl

theorem calm_modify {g : Reading → Reading} (h : ∀ s : Reading, s.Moves (g s)) : Calm (modify g) := h

theorem runs_goOn {rest : Text} (h : rest <:+ s.rest) : Runs (goOn rest) s fun _ s' => s.Moves s' := by
  simp only [goOn, runs_ite, runs_bind, runs_malformed, runs_modify, implies_true, true_and]
  exact fun _ => .onto h

/-- What is left to read may be cut. -/
theorem calm_get_goOn {cut : Reading → Text} (hcut : ∀ s, cut s <:+ s.rest) {g : Reading → Parser β}
    (hg : ∀ s, Calm (g s)) : Calm (get >>= fun s => goOn (cut s) >>= fun _ => g s) := fun s => by
  rw [runs_bind, runs_get, runs_bind]
  exact (runs_goOn (hcut s)).mono fun _ s' hs' => (hg s s').mono fun _ _ hs'' => hs'.trans hs''

theorem suffix_afterToken (t : Text) : Reading.afterToken t <:+ t := by
  unfold Reading.afterToken
  split
  · exact ⟨['\\', _], rfl⟩
  · exact ⟨[_], rfl⟩
  · exact List.suffix_refl _

theorem calm_next : Calm next := calm_get_goOn (fun s => suffix_afterToken s.rest) fun _ => calm_pure _

theorem calm_peek : Calm peek := calm_get.bind fun _ => calm_pure _

theorem calm_accept (c : Char) : Calm (accept c) :=
  calm_peek.bind fun _ => .ite (calm_next.bind fun _ => calm_pure _) (calm_pure _)

theorem calm_expect (c : Char) : Calm (expect c) :=
  (calm_accept c).bind fun _ => .ite calm_malformed (calm_pure _)

theorem calm_takeUpTo (test : Char → Bool) (limit : Nat) : Calm (takeUpTo test limit) :=
  calm_get_goOn (fun _ => List.drop_suffix _ _) fun _ => calm_pure _

theorem suffix_splitAtToken {stop : Char} {done t taken rest : Text}
    (h : splitAtToken stop done t = some (taken, rest)) : rest <:+ t := by
  fun_induction splitAtToken stop done t with
  | case1 => cases h
  | case2 done c cs ih => exact (ih h).trans ⟨['\\', c], rfl⟩
  | case3 done cs => cases h; exact ⟨[_], rfl⟩
  | case4 done c cs _ _ ih => exact (ih h).trans ⟨[c], rfl⟩

theorem calm_takeName (stop : Char) : Calm (takeName stop) := fun s => by
  rw [takeName, runs_bind, runs_get]
  split
  · next hsplit =>
    rw [runs_bind]
    exact (runs_goOn (suffix_splitAtToken hsplit)).mono fun _ _ h => h
  · exact calm_malformed s

theorem calm_checkBehind (n : Nat) : Calm (checkBehind n) :=
  calm_get.bind fun s => by
    split
    · exact calm_pure _
    · exact .ite calm_malformed (calm_pure _)

theorem calm_hexCode (length : Nat) : Calm (hexCode length) :=
  (calm_takeUpTo _ _).bind fun _ => .guard (calm_pure _)

theorem calm_namedCode : Calm namedCode :=
  (calm_expect _).bind fun _ => (calm_takeName _).bind fun _ => by
    simp only
    split
    · exact calm_pure _
    · exact calm_malformed

theorem calm_octalCode (digits : Text) : Calm (octalCode digits) := .guard (calm_pure _)

theorem calm_reference (mode : Mode) (c : Char) : Calm (numberEscape.reference mode c) :=
  (calm_takeUpTo _ _).bind fun _ => calm_get.bind fun _ =>
    .guard ((calm_checkBehind _).bind fun _ => calm_pure _)

theorem calm_numberEscape (mode : Mode) (c : Char) : Calm (numberEscape mode c) :=
  calm_get.bind fun _ => by
    split
    · exact .ite (calm_next.bind fun _ => calm_next.bind fun _ =>
        (calm_octalCode _).bind fun _ => calm_pure _) (calm_reference mode c)
    · exact calm_reference mode c

theorem calm_repeatLast (least : Nat) (most : Option Nat) (done : List Part) :
    Calm (repeatLast least most done) := by
  unfold repeatLast
  split
  · exact calm_malformed
  · exact calm_malformed
  · exact calm_malformed
  · exact (calm_accept _).bind fun _ => .ite ((calm_pure _).bind fun _ => calm_pure _)
      ((calm_accept _).bind fun _ => .ite ((calm_pure _).bind fun _ => calm_pure _)
        ((calm_pure _).bind fun _ => calm_pure _))

theorem calm_openGroup (name : Option Text) : Calm (openGroup name) := fun s => by
  cases name with
  | none =>
    simp only [openGroup, runs_bind, runs_get, runs_pure, runs_set]
    exact ⟨List.suffix_refl _, rfl⟩
  | some name =>
    simp only [openGroup, runs_bind, runs_get, runs_ite, runs_malformed, runs_pure, runs_set,
      implies_true, true_and]
    exact fun _ => ⟨List.suffix_refl _, rfl⟩

theorem calm_closeGroup (n : Nat) (body : List Node) : Calm (closeGroup n body) :=
  calm_modify fun _ => ⟨List.suffix_refl _, rfl⟩

theorem calm_groupNamed (name : Text) : Calm (groupNamed name) :=
  .guard (calm_get.bind fun _ => by
    split
    · exact calm_pure _
    · exact calm_malformed)

theorem calm_conditionGroup : Calm conditionGroup :=
  (calm_takeName _).bind fun name => .ite (calm_groupNamed name) (by
    split
    · refine .guard (Calm.bind (calm_modify ?_) fun _ => calm_pure _)
      exact fun _ => ⟨List.suffix_refl _, rfl⟩
    · exact calm_malformed)

end

/-! ## Texts without anything to refuse -/

def isFlagLetter (c : Char) : Bool := (Flags.ofLetter? c).isSome

/-- A flag stands among the letters at the start of a group. -/
def NamesFlag (c : Char) (t : Text) : Prop :=
  ∃ r, '(' :: '?' :: r <:+ t ∧ c ∈ r.takeWhile isFlagLetter

/-- There is no number that is too large for a repetition or too long to be read, no code of eight
digits beyond what is read, no more opening parentheses than groups may stand in one another, and
not both of the flags that exclude each other. -/
structure Moderate (t : Text) : Prop where
  numbers : ∀ r, r <:+ t → (r.takeWhile isAsciiDigit).length ≤ Json.digitLimit ∧
    numberOf 10 (r.takeWhile isAsciiDigit) < 4294967295
  codes : ∀ r, '\\' :: 'U' :: r <:+ t → numberOf 16 ((r.take 8).takeWhile isHexDigit) < 0x80000000
  groups : t.count '(' ≤ nestingLimit
  flags : ¬ (NamesFlag 'a' t ∧ NamesFlag 'u' t)

instance (c : Char) (t : Text) : Decidable (NamesFlag c t) :=
  decidable_of_iff (∃ r ∈ t.tails, r.take 2 = ['(', '?'] ∧ c ∈ (r.drop 2).takeWhile isFlagLetter) <| by
    simp only [List.mem_tails]
    constructor
    · rintro ⟨r, hr, hmark, hc⟩
      refine ⟨r.drop 2, ?_, hc⟩
      rwa [← List.take_append_drop 2 r, hmark] at hr
    · rintro ⟨r, hr, hc⟩
      exact ⟨_, hr, rfl, hc⟩

instance (t : Text) : Decidable (Moderate t) :=
  decidable_of_iff ((∀ r ∈ t.tails, (r.takeWhile isAsciiDigit).length ≤ Json.digitLimit ∧
        numberOf 10 (r.takeWhile isAsciiDigit) < 4294967295) ∧
      (∀ r ∈ t.tails, r.take 2 = ['\\', 'U'] →
        numberOf 16 (((r.drop 2).take 8).takeWhile isHexDigit) < 0x80000000) ∧
      t.count '(' ≤ nestingLimit ∧ ¬ (NamesFlag 'a' t ∧ NamesFlag 'u' t)) <| by
    simp only [List.mem_tails]
    constructor
    · rintro ⟨hnumbers, hcodes, hgroups, hflags⟩
      exact ⟨hnumbers, fun r hr => hcodes _ hr rfl, hgroups, hflags⟩
    · rintro ⟨hnumbers, hcodes, hgroups, hflags⟩
      refine ⟨hnumbers, fun r hr hmark => hcodes _ ?_, hgroups, hflags⟩
      rwa [← List.take_append_drop 2 r, hmark] at hr

/-- Of the flags that exclude each other, those that are set are named in the text. -/
structure Named (t : Text) (f : Flags) : Prop where
  ascii : f.ascii = true → NamesFlag 'a' t
  unicode : f.unicode = true → NamesFlag 'u' t

/-- What is left to read is the end of the text and has not more parentheses than groups may still be
opened, and the flags of the expression are named in the text. -/
structure Within (t : Text) (depth : Nat) (s : Reading) : Prop where
  rest : s.rest <:+ t
  groups : depth + s.rest.count '(' ≤ nestingLimit
  named : Named t s.flags

section
variable {t : Text} {depth : Nat} {s s' : Reading}

theorem Within.moves (h : Within t depth s) (hs : s.Moves s') : Within t depth s' where
  rest := hs.rest.trans h.rest
  groups := (Nat.add_le_add_left (hs.rest.sublist.count_le _) _).trans h.groups
  named := hs.flags ▸ h.named

theorem Within.outer (h : Within t (depth + 1) s) : Within t depth s :=
  ⟨h.rest, by have := h.groups; omega, h.named⟩

/-- A reading that is not refused within the text, and stays in it. -/
def Stays {α : Type} (t : Text) (depth : Nat) (x : Parser α) : Prop :=
  ∀ s, Within t depth s → Runs x s fun _ s' => Within t depth s'

end

section
variable {α β : Type} {t : Text} {depth : Nat} {x y : Parser α} {f : α → Parser β} {f' : β → Parser α}

theorem Calm.stays (h : Calm x) : Stays t depth x := fun s hs => (h s).mono fun _ _ => hs.moves

theorem Stays.bind (hx : Stays t depth x) (hf : ∀ a, Stays t depth (f a)) : Stays t depth (x >>= f) :=
  fun s hs => runs_bind.2 ((hx s hs).mono fun a s' => hf a s')

theorem Stays.ite {p : Prop} [Decidable p] (hx : Stays t depth x) (hy : Stays t depth y) :
    Stays t depth (if p then x else y) := by
  split
  · exact hx
  · exact hy

theorem Stays.guard {p : Prop} [Decidable p] (hx : Stays t depth x) :
    Stays t depth (if p then malformed >>= f' else x) :=
  .ite (fun _ _ => runs_bind.2 (runs_malformed.2 trivial)) hx

theorem stays_pure (a : α) : Stays t depth (pure a) := (calm_pure a).stays

/-- The text of a token. -/
def Token.text : Token → Text
  | .char c => [c]
  | .escape c => ['\\', c]

theorem token?_eq_some {r : Text} {k : Token} (h : Reading.token? r = some k) :
    r = k.text ++ Reading.afterToken r := by
  unfold Reading.token? at h
  unfold Reading.afterToken
  split at h
  · cases h
  · cases h; rfl
  · next c cs hne =>
    cases h
    split
    · next heq => exact (hne _ _ (List.cons.inj heq).1 (List.cons.inj heq).2).elim
    · next heq => cases heq; rfl
    · next heq => cases heq

/-- What has been read as a token stood in front of the rest. -/
theorem runs_next (s : Reading) :
    Runs next s fun k? s' => s.Moves s' ∧ k? = Reading.token? s.rest ∧
      ∀ k, k? = some k → s.rest = k.text ++ s'.rest := by
  simp only [next, runs_bind, runs_get, goOn, runs_ite, runs_malformed, runs_modify, runs_pure,
    implies_true, true_and]
  exact fun _ => ⟨.onto (suffix_afterToken _), fun _ => token?_eq_some⟩

theorem runs_accept (c : Char) (s : Reading) :
    Runs (accept c) s fun found s' => s.Moves s' ∧ (found = true → s.rest = c :: s'.rest) := by
  rw [accept, peek, bind_assoc, runs_bind, runs_get, pure_bind, runs_ite, runs_bind]
  constructor
  · intro hc
    refine (runs_next s).mono fun _ s' hs' => ⟨hs'.1, fun _ => ?_⟩
    exact hs'.2.2 _ (hs'.2.1.trans hc)
  · intro _
    exact ⟨.refl s, fun hfound => absurd hfound Bool.false_ne_true⟩

theorem runs_takeUpTo (test : Char → Bool) (limit : Nat) (s : Reading) :
    Runs (takeUpTo test limit) s fun taken s' =>
      s.Moves s' ∧ taken = (s.rest.take limit).takeWhile test := by
  simp only [takeUpTo, runs_bind, runs_get, runs_pure, and_true]
  exact runs_goOn (List.drop_suffix _ _)

theorem runs_takeDigits (s : Reading) :
    Runs takeDigits s fun taken s' => s.Moves s' ∧ taken = s.rest.takeWhile isAsciiDigit := by
  simp only [takeDigits, runs_bind, runs_get, runs_pure, and_true]
  exact runs_goOn (List.drop_suffix _ _)

theorem runs_hexCode (length : Nat) (s : Reading) :
    Runs (hexCode length) s fun n s' =>
      s.Moves s' ∧ n = numberOf 16 ((s.rest.take length).takeWhile isHexDigit) := by
  rw [hexCode, runs_bind]
  refine (runs_takeUpTo _ _ _).mono fun digits s' hs' => ?_
  simp only [runs_ite, runs_bind, runs_malformed, runs_pure, implies_true, true_and]
  exact fun _ => ⟨hs'.1, by rw [hs'.2]⟩

/-! ## Escapes -/

/-- A reading that is not refused where a character stands behind a backslash. -/
def StaysBehind {α : Type} (t : Text) (depth : Nat) (front : Text) (x : Parser α) : Prop :=
  ∀ s, Within t depth s → front ++ s.rest <:+ t → Runs x s fun _ s' => Within t depth s'

theorem Stays.behind (h : Stays t depth x) (front : Text) : StaysBehind t depth front x :=
  fun s hs _ => h s hs

theorem StaysBehind.bind {front : Text} (hx : StaysBehind t depth front x)
    (hf : ∀ a, Stays t depth (f a)) : StaysBehind t depth front (x >>= f) := fun s hs hfront =>
  runs_bind.2 ((hx s hs hfront).mono fun a s' => hf a s')

/-- A token is read, and what is read behind it may depend on it. -/
theorem stays_next {g : Option Token → Parser β} (hnone : Stays t depth (g none))
    (hsome : ∀ k, StaysBehind t depth k.text (g (some k))) : Stays t depth (next >>= g) := fun s hs => by
  rw [runs_bind]
  refine (runs_next s).mono fun k? s' hs' => ?_
  cases k? with
  | none => exact hnone s' (hs.moves hs'.1)
  | some k => exact hsome k s' (hs.moves hs'.1) (hs'.2.2 k rfl ▸ hs.rest)

section
variable (ht : Moderate t)
include ht

theorem stays_letterCode (c : Char) : StaysBehind t depth ['\\', c] (letterCode c) := by
  unfold letterCode
  split
  · exact (calm_hexCode 2).stays.behind _
  · exact (calm_hexCode 4).stays.behind _
  · intro s hs hc
    have hcode := ht.codes _ hc
    rw [runs_bind]
    refine (runs_hexCode 8 s).mono fun n s' hn => ?_
    have hlt : ¬ 0x80000000 ≤ n := hn.2 ▸ Nat.not_le.2 hcode
    simp only [if_neg hlt]
    exact (Stays.guard (stays_pure n)) s' (hs.moves hn.1)
  · exact calm_namedCode.stays.behind _
  · exact (Calm.ite calm_malformed (calm_pure _)).stays.behind _

theorem stays_memberEscape (c : Char) : StaysBehind t depth ['\\', c] (memberEscape c) := by
  unfold memberEscape
  split
  · exact (stays_pure _).behind _
  · exact (stays_pure _).behind _
  · split
    · exact ((calm_takeUpTo _ _).bind fun _ => (calm_octalCode _).bind fun _ => calm_pure _).stays.behind _
    · split
      · exact calm_malformed.stays.behind _
      · exact (stays_letterCode ht c).bind fun _ => stays_pure _

theorem stays_escapeNode (mode : Mode) (c : Char) :
    StaysBehind t depth ['\\', c] (escapeNode mode c) := by
  unfold escapeNode
  split
  · exact (stays_pure _).behind _
  · exact (stays_pure _).behind _
  · exact (stays_pure _).behind _
  · split
    · exact ((calm_takeUpTo _ _).bind fun _ => calm_pure _).stays.behind _
    · split
      · exact (calm_numberEscape mode c).stays.behind _
      · exact (stays_letterCode ht c).bind fun _ => stays_pure _

theorem stays_member (k : Token) : StaysBehind t depth k.text (member k) := by
  cases k with
  | char c => exact (stays_pure _).behind _
  | escape c => exact stays_memberEscape ht c

theorem stays_members (fuel : Nat) (done : List Member) : Stays t depth (members fuel done) := by
  induction fuel generalizing done with
  | zero => exact calm_malformed.stays
  | succ fuel ih =>
    refine calm_get.stays.bind fun start => stays_next calm_malformed.stays fun k => ?_
    simp only
    split
    · exact (stays_pure _).behind _
    · refine (stays_member ht k).bind fun low => (calm_accept '-').stays.bind fun hyphen => ?_
      refine .ite (stays_next calm_malformed.stays fun u => ?_) (ih _)
      split
      · next h => cases h
      · exact (stays_pure _).behind _
      · next h =>
        cases h
        refine (stays_member ht _).bind fun high => ?_
        split
        · exact ih _
        · exact Calm.stays (calm_get.bind fun _ _ _ h => by cases h)

/-! ## Repetitions -/

/-- Digits that stand in the text, as many as there are. -/
def IsDigits (t digits : Text) : Prop := ∃ r, r <:+ t ∧ digits = r.takeWhile isAsciiDigit

theorem stays_repetitionNumber {digits : Text} (h : IsDigits t digits) :
    Stays t depth (repetitionNumber digits) := by
  obtain ⟨r, hr, rfl⟩ := h
  obtain ⟨hlength, hlt⟩ := ht.numbers r hr
  simp only [repetitionNumber, if_neg (Nat.not_lt.2 hlength), if_neg (Nat.not_le.2 hlt)]
  exact stays_pure _

omit ht in
theorem stays_takeDigits {g : Text → Parser β} (h : ∀ digits, IsDigits t digits → Stays t depth (g digits)) :
    Stays t depth (takeDigits >>= g) := fun s hs => by
  rw [runs_bind]
  exact (runs_takeDigits s).mono fun digits s' hs' =>
    h digits ⟨s.rest, hs.rest, hs'.2⟩ s' (hs.moves hs'.1)

theorem stays_braces : Stays t depth braces := by
  intro start hstart
  -- whichever way a bound is read, what follows is the same
  have upper : ∀ {low : Text} {comma : Bool} {g : Text → Parser (Option (Nat × Option Nat))},
      IsDigits t low → (∀ high, IsDigits t high → Stays t depth (g high)) →
        Stays t depth (if comma then takeDigits >>= g else pure low >>= g) :=
    fun hlow hg => .ite (stays_takeDigits hg) (hg _ hlow)
  have least : ∀ {low : Text} {g : Nat → Parser (Option (Nat × Option Nat))},
      IsDigits t low → (∀ n, Stays t depth (g n)) →
        Stays t depth (if low.isEmpty then pure 0 >>= g else repetitionNumber low >>= g) :=
    fun hlow hg => .ite ((stays_pure 0).bind hg) ((stays_repetitionNumber ht hlow).bind hg)
  refine Stays.ite (stays_pure _) (stays_takeDigits fun low hlow =>
    (calm_accept ',').stays.bind fun comma => upper hlow fun high hhigh =>
      (calm_accept '\x7d').stays.bind fun close => .ite ?_ ?_) start hstart
  · exact least hlow fun n => .ite (stays_pure _)
      ((stays_repetitionNumber ht hhigh).bind fun most => .guard (stays_pure _))
  · -- what is no bounds is read again
    exact fun _ _ => hstart

end

/-! ## Flags -/

theorem named_none (t : Text) : Named t .none := ⟨nofun, nofun⟩

theorem Named.union {f g : Flags} (hf : Named t f) (hg : Named t g) : Named t (f.union g) where
  ascii h := (Bool.or_eq_true_iff.1 h).elim hf.ascii hg.ascii
  unicode h := (Bool.or_eq_true_iff.1 h).elim hf.unicode hg.unicode

/-- The flags were set before, or are named by the letters at the start of a text. -/
structure FlagsFrom (before : Flags) (r : Text) (f : Flags) : Prop where
  ascii : f.ascii = true → before.ascii = true ∨ 'a' ∈ r.takeWhile isFlagLetter
  unicode : f.unicode = true → before.unicode = true ∨ 'u' ∈ r.takeWhile isFlagLetter

theorem FlagsFrom.refl (f : Flags) (r : Text) : FlagsFrom f r f := ⟨.inl, .inl⟩

theorem FlagsFrom.cons {before f g : Flags} {c : Char} {r : Text} (hc : Flags.ofLetter? c = some g)
    (h : FlagsFrom (before.union g) r f) : FlagsFrom before (c :: r) f := by
  have hletter : (g.ascii = true → c = 'a') ∧ (g.unicode = true → c = 'u') := by
    unfold Flags.ofLetter? at hc
    split at hc <;> cases hc <;> exact ⟨by decide, by decide⟩
  have hrow : (c :: r).takeWhile isFlagLetter = c :: r.takeWhile isFlagLetter := by
    rw [List.takeWhile_cons, isFlagLetter, hc]
    rfl
  constructor
  · intro hf
    rw [hrow, List.mem_cons]
    rcases h.ascii hf with hset | hmem
    · exact (Bool.or_eq_true_iff.1 hset).imp_right fun hg => .inl (hletter.1 hg).symm
    · exact .inr (.inr hmem)
  · intro hf
    rw [hrow, List.mem_cons]
    rcases h.unicode hf with hset | hmem
    · exact (Bool.or_eq_true_iff.1 hset).imp_right fun hg => .inl (hletter.2 hg).symm
    · exact .inr (.inr hmem)

theorem FlagsFrom.named {r : Text} {f : Flags} (h : FlagsFrom .none r f) (hr : '(' :: '?' :: r <:+ t) :
    Named t f where
  ascii hf := ⟨r, hr, (h.ascii hf).resolve_left nofun⟩
  unicode hf := ⟨r, hr, (h.unicode hf).resolve_left nofun⟩

theorem runs_flagLetters (turnOn : Bool) (fuel : Nat) (done : Flags) (c : Char) (s : Reading) :
    Runs (flagLetters turnOn fuel done c) s fun p s' =>
      s.Moves s' ∧ FlagsFrom done (c :: s.rest) p.1 := by
  induction fuel generalizing done c s with
  | zero => exact runs_malformed.2 trivial
  | succ fuel ih =>
    unfold flagLetters
    split
    · exact runs_malformed.2 trivial
    · next f hf =>
      rw [runs_ite, runs_bind]
      refine ⟨fun _ => runs_malformed.2 trivial, fun _ => (runs_next s).mono fun k? s' hs' => ?_⟩
      split
      · next d =>
        rw [runs_ite]
        refine ⟨fun _ => ⟨hs'.1, (FlagsFrom.refl _ _).cons hf⟩, fun _ => ?_⟩
        refine (ih _ d s').mono fun p s'' hp => ⟨hs'.1.trans hp.1, ?_⟩
        have hrest : s.rest = d :: s'.rest := hs'.2.2 _ rfl
        exact hrest ▸ hp.2.cons hf
      · exact runs_malformed.2 trivial

theorem calm_flagLetters (turnOn : Bool) (fuel : Nat) (done : Flags) (c : Char) :
    Calm (flagLetters turnOn fuel done c) := fun s =>
  (runs_flagLetters turnOn fuel done c s).mono fun _ _ h => h.1

/-- Flags for the whole expression are named by the letters of their group. -/
theorem stays_flagGroup (fuel : Nat) (c : Char) : StaysBehind t depth ['(', '?', c] (flagGroup fuel c) := by
  intro s hs hfront
  have letters : ∀ {g : Flags × Char → Parser (Option (Flags × Flags))},
      (∀ p, Named t p.1 → Stays t depth (g p)) →
        Runs (if c = '-' then pure (.none, '-') >>= g else flagLetters true fuel .none c >>= g) s
          fun _ s' => Within t depth s' := by
    intro g hg
    rw [runs_ite]
    refine ⟨fun _ => hg _ (named_none t) s hs, fun _ => runs_bind.2 ?_⟩
    exact (runs_flagLetters true fuel .none c s).mono
      fun p s' hp => hg p (hp.2.named hfront) s' (hs.moves hp.1)
  refine letters fun p hp => .ite ?_ (.guard (.ite (stays_pure _) (stays_next calm_malformed.stays ?_)))
  · exact fun s' hs' => ⟨hs'.rest, hs'.groups, hs'.named.union hp⟩
  · intro k
    split
    · exact ((calm_flagLetters _ _ _ _).stays.bind fun _ => .guard (stays_pure _)).behind _
    · exact calm_malformed.stays.behind _

/-! ## Groups -/

/-- Reading that takes this much fuel stays in the text. What stands in a group is read one level
deeper, which the parenthesis in front of it leaves room for. -/
structure Bounded (t : Text) (fuel : Nat) : Prop where
  alternatives : ∀ flags depth done, Stays t depth (alternatives fuel flags depth done)
  parts : ∀ flags depth first done, Stays t depth (parts fuel flags depth first done)
  special : ∀ flags depth c, Stays t (depth + 1) (special fuel flags depth c)
  ahead : ∀ flags depth negated, Stays t (depth + 1) (ahead fuel flags depth negated)

theorem bounded_zero : Bounded t 0 where
  alternatives _ _ _ := by rw [alternatives]; exact calm_malformed.stays
  parts _ _ _ _ := by rw [parts]; exact calm_malformed.stays
  special _ _ _ := by rw [special]; exact calm_malformed.stays
  ahead _ _ _ := by rw [ahead]; exact calm_malformed.stays

variable {fuel : Nat} (h : Bounded t fuel)
include h

theorem stays_alternatives (flags : Flags) (depth : Nat) (done : List (List Node)) :
    Stays t depth (alternatives (fuel + 1) flags depth done) := by
  rw [alternatives]
  exact calm_get.stays.bind fun _ => (h.parts _ _ _ _).bind fun _ => (calm_accept '|').stays.bind fun _ =>
    .ite (h.alternatives _ _ _) (stays_pure _)

theorem stays_ahead (flags : Flags) (depth : Nat) (negated : Bool) :
    Stays t (depth + 1) (ahead (fuel + 1) flags depth negated) := by
  rw [ahead]
  exact (h.alternatives _ _ _).bind fun _ => (calm_expect ')').stays.bind fun _ => stays_pure _

theorem stays_special (flags : Flags) (depth : Nat) (c : Char) :
    Stays t (depth + 1) (special (fuel + 1) flags depth c) := by
  have close : ∀ {α : Type} (a : α), Calm (expect ')' >>= fun _ => pure a) :=
    fun _ => (calm_expect ')').bind fun _ => calm_pure _
  unfold special
  split
  · exact (h.alternatives _ _ _).bind fun _ => (close _).stays
  · exact (h.alternatives _ _ _).bind fun _ => (close _).stays
  · refine (calm_accept '<').stays.bind fun _ => .ite ?_ ?_
    · exact (calm_takeName '>').stays.bind fun _ => .guard ((calm_openGroup _).stays.bind fun _ =>
        (h.alternatives _ _ _).bind fun _ => (calm_expect ')').stays.bind fun _ =>
          (calm_closeGroup _ _).stays.bind fun _ => stays_pure _)
    · exact ((calm_expect '=').bind fun _ => (calm_takeName ')').bind fun _ =>
        (calm_groupNamed _).bind fun _ => calm_get.bind fun _ =>
          .guard ((calm_checkBehind _).bind fun _ => calm_pure _)).stays
  · exact (h.ahead _ _ _).bind fun _ => stays_pure _
  · exact (h.ahead _ _ _).bind fun _ => stays_pure _
  · have sign : ∀ {g : Bool → Parser Part}, (∀ negated, Stays t (depth + 1) (g negated)) →
        Stays t (depth + 1) (accept '!' >>= fun found =>
          if found then pure true >>= g else expect '=' >>= fun _ => pure false >>= g) :=
      fun hg => (calm_accept '!').stays.bind fun _ =>
        .ite (hg true) ((calm_expect '=').stays.bind fun _ => hg false)
    refine sign fun negated => calm_get.stays.bind fun outer => Stays.bind (calm_modify ?_).stays fun _ =>
      (h.alternatives _ _ _).bind fun _ => Stays.bind (calm_modify ?_).stays fun _ =>
        (calm_expect ')').stays.bind fun _ => calm_get.stays.bind fun _ => stays_pure _
    · exact fun _ => ⟨List.suffix_refl _, rfl⟩
    · exact fun _ => ⟨List.suffix_refl _, rfl⟩
  · refine calm_conditionGroup.stays.bind fun _ => (calm_checkBehind _).stays.bind fun _ =>
      (h.parts _ _ _ _).bind fun yes => (calm_accept '|').stays.bind fun _ => .ite ?_ ?_
    · exact (h.parts _ _ _ _).bind fun _ => (close _).stays
    · exact (stays_pure _).bind fun _ => (close _).stays
  · exact calm_malformed.stays

omit h in
/-- The parenthesis that opens a group is one less to come. -/
theorem Within.inner {s s' : Reading} (hs : Within t depth s) (hmoves : s.Moves s')
    (hrest : s.rest = '(' :: s'.rest) : Within t (depth + 1) s' where
  rest := hmoves.rest.trans hs.rest
  groups := by
    have hgroups := hs.groups
    rw [hrest, List.count_cons_self] at hgroups
    omega
  named := hmoves.flags ▸ hs.named

omit h in
/-- What is read behind a group is read outside of it. -/
theorem Stays.behindGroup (hx : Stays t (depth + 1) x) (hf : ∀ a, Stays t depth (f a)) {s : Reading}
    (hs : Within t (depth + 1) s) : Runs (x >>= f) s fun _ s' => Within t depth s' :=
  runs_bind.2 ((hx s hs).mono fun a s' hs' => hf a s' hs'.outer)

/-- A group, from the parenthesis that opens it on, and the parts behind it. -/
theorem runs_parts_group (flags : Flags) (first : Bool) (done : List Part) {s : Reading}
    (hs : Within t depth s) (hgroup : Reading.token? s.rest = some (.char '(')) :
    Runs (parts (fuel + 1) flags depth first done) s fun _ s' => Within t depth s' := by
  have hparts := h.parts flags depth first
  rw [parts, peek, bind_assoc, runs_bind, runs_get, pure_bind, hgroup]
  refine runs_bind.2 ((runs_next s).mono fun k? s₀ hs₀ => ?_)
  obtain ⟨hmoves, rfl, hrest⟩ := hs₀
  replace hrest : s.rest = '(' :: s₀.rest := hrest _ hgroup
  have hin := hs.inner hmoves hrest
  have hfront : '(' :: s₀.rest <:+ t := hrest ▸ hs.rest
  have hdepth : ¬ nestingLimit ≤ depth := by have := hin.groups; omega
  simp only [show isPadding (.char '(') = false from rfl, Bool.and_false, Bool.false_eq_true,
    if_false, Token.char.injEq, Char.reduceEq, decide_false, if_neg hdepth]
  refine runs_bind.2 ((runs_accept '?' s₀).mono fun found s₁ hs₁ => ?_)
  have hin₁ := hin.moves hs₁.1
  split
  · next hfound =>
    have hmark : '(' :: '?' :: s₁.rest <:+ t := hs₁.2 hfound ▸ hfront
    rw [runs_bind]
    refine (runs_next s₁).mono fun k? s₂ hs₂ => ?_
    have hin₂ := hin₁.moves hs₂.1
    split
    · -- a comment
      rw [runs_bind, runs_get]
      split
      · next hsplit =>
        rw [runs_bind]
        exact (runs_goOn (suffix_splitAtToken hsplit)).mono
          fun _ s₃ hs₃ => hparts _ s₃ (hin₂.outer.moves hs₃)
      · exact runs_bind.2 (runs_malformed.2 trivial)
    · next c _ =>
      have hletters : ['(', '?', c] ++ s₂.rest <:+ t := by
        rw [hs₂.2.2 _ rfl] at hmark
        exact hmark
      split
      · rw [runs_bind]
        refine ((stays_flagGroup _ _) s₂ hin₂ hletters).mono fun flags? s₃ hin₃ => ?_
        split
        · exact Stays.guard (calm_get.stays.bind fun _ => h.parts _ _ _ _) s₃ hin₃.outer
        · exact (h.alternatives _ _ _).behindGroup
            (fun _ => (calm_expect ')').stays.bind fun _ => hparts _) hin₃
      · exact (h.special _ _ _).behindGroup (fun _ => hparts _) hin₂
    · exact runs_malformed.2 trivial
  · rw [runs_bind]
    refine ((calm_openGroup none).stays s₁ hin₁).mono fun n s₂ hin₂ => ?_
    exact (h.alternatives _ _ _).behindGroup (fun _ => (calm_expect ')').stays.bind fun _ =>
      (calm_closeGroup _ _).stays.bind fun _ => hparts _) hin₂

theorem stays_parts (ht : Moderate t) (flags : Flags) (depth : Nat) (first : Bool) (done : List Part) :
    Stays t depth (parts (fuel + 1) flags depth first done) := by
  intro s hs
  by_cases hgroup : Reading.token? s.rest = some (.char '(')
  · exact runs_parts_group h flags first done hs hgroup
  rw [parts, peek, bind_assoc, runs_bind, runs_get, pure_bind]
  split
  · exact hs
  · exact hs
  · exact hs
  · next k _ _ hk =>
    rw [runs_bind]
    refine (runs_next s).mono fun k? s' hs' => ?_
    obtain ⟨hmoves, rfl, hrest⟩ := hs'
    replace hrest : s.rest = k.text ++ s'.rest := hrest k hk
    have hin : Within t depth s' := hs.moves hmoves
    have hfront : k.text ++ s'.rest <:+ t := hrest ▸ hs.rest
    have hparts := h.parts flags depth first
    simp only [runs_ite]
    refine ⟨fun _ => hparts _ s' hin, fun _ => ⟨fun _ => ?_, fun _ => ?_⟩⟩
    · -- a comment of a verbose expression
      rw [runs_bind, runs_get]
      split
      · next hsplit =>
        rw [runs_bind]
        exact (runs_goOn (suffix_splitAtToken hsplit)).mono fun _ s'' hs'' => hparts _ s'' (hin.moves hs'')
      · rw [runs_bind]
        exact (runs_goOn (List.nil_suffix)).mono fun _ s'' hs'' => hparts _ s'' (hin.moves hs'')
    · have hopen : k ≠ .char '(' := fun h => hgroup (h ▸ hk)
      clear hk
      split
      · exact ((stays_escapeNode ht _ _).bind fun _ => hparts _) s' hin hfront
      · exact ((calm_accept '^').stays.bind fun _ => (stays_members ht _ _).bind fun _ => hparts _) s' hin
      · exact ((calm_repeatLast _ _ _).stays.bind fun _ => hparts _) s' hin
      · exact ((calm_repeatLast _ _ _).stays.bind fun _ => hparts _) s' hin
      · exact ((calm_repeatLast _ _ _).stays.bind fun _ => hparts _) s' hin
      · refine Stays.bind (stays_braces ht) (fun bounds => ?_) s' hin
        split
        · exact hparts _
        · exact (calm_repeatLast _ _ _).stays.bind fun _ => hparts _
      · exact hparts _ s' hin
      · exact hparts _ s' hin
      · exact hparts _ s' hin
      · exact absurd rfl hopen
      · exact hparts _ s' hin

end

theorem bounded {t : Text} (ht : Moderate t) (fuel : Nat) : Bounded t fuel := by
  induction fuel with
  | zero => exact bounded_zero
  | succ fuel ih => exact ⟨stays_alternatives ih, stays_parts ih ht, stays_special ih, stays_ahead ih⟩

/-- A text without anything to refuse is read or malformed. -/
theorem Moderate.not_refused {t : Text} (ht : Moderate t) (cause : Refusal) :
    Pattern.parse t ≠ .error (.refused cause) := by
  have hstart : Within t 0 (.ofText t) :=
    ⟨List.suffix_refl t, by rw [Nat.zero_add]; exact ht.groups, named_none t⟩
  have hruns := (bounded ht (4 * t.length + 8)).alternatives .none 0 [] _ hstart
  unfold Pattern.parse
  by_cases hback : t = ['\\']
  · rw [if_pos hback]
    exact nofun
  · rw [if_neg hback]
    change ((alternatives (4 * t.length + 8) .none 0 []).run (.ofText t) >>= _) ≠ _
    unfold Runs at hruns
    cases hrun : (alternatives (4 * t.length + 8) .none 0 []).run (.ofText t) with
    | error e =>
      rw [hrun] at hruns
      exact fun heq => hruns cause (Except.error.inj heq)
    | ok p =>
      obtain ⟨ns, r⟩ := p
      rw [hrun] at hruns
      have hflags : (r.flags.ascii && r.flags.unicode) = false := by
        rw [Bool.and_eq_false_iff, ← Bool.not_eq_true, ← Bool.not_eq_true, ← not_and_or]
        exact fun hboth => ht.flags ⟨hruns.named.ascii hboth.1, hruns.named.unicode hboth.2⟩
      simp only [Bind.bind, Except.bind, hflags, Bool.false_eq_true, if_false]
      split_ifs
      all_goals exact nofun

/-! ## Texts that are refused -/

section
variable {α β : Type} {s : Reading} {fuel depth : Nat} {first : Bool} {done : List Part}

theorem run_bind_error {x : Parser α} {f : α → Parser β} {e : ParseError} (h : x.run s = .error e) :
    (x >>= f).run s = .error e := by
  rw [StateT.run_bind, h]
  rfl

theorem run_takeDigits {digits rest : Text} (hdigits : digits.all isAsciiDigit = true)
    (hrest : rest ≠ ['\\']) (hend : ∀ c ∈ rest.head?, isAsciiDigit c = false) :
    takeDigits.run (s.onto (digits ++ rest)) = .ok (digits, s.onto rest) := by
  have htaken : (digits ++ rest).takeWhile isAsciiDigit = digits := by
    rw [List.takeWhile_append_of_pos (List.all_eq_true.1 hdigits)]
    cases rest with
    | nil => simp
    | cons c cs => simp [hend c rfl]
  have hgo : (goOn ((s.onto (digits ++ rest)).rest.drop digits.length)).run (s.onto (digits ++ rest)) =
      .ok ((), s.onto rest) := by
    rw [show (s.onto (digits ++ rest)).rest.drop digits.length = rest from List.drop_left, goOn,
      if_neg hrest]
    rfl
  rw [takeDigits, run_get_bind]
  simp only [show (s.onto (digits ++ rest)).rest = digits ++ rest from rfl, htaken] at hgo ⊢
  exact run_bind_ok hgo

/-- A number that is too large for a repetition, or too long to be read as a number. -/
theorem exists_run_repetitionNumber {digits : Text} (h : 4294967295 ≤ numberOf 10 digits) :
    ∃ cause, (repetitionNumber digits).run s = .error (.refused cause) := by
  by_cases hlength : Json.digitLimit < digits.length
  · exact ⟨_, by simp only [repetitionNumber, if_pos hlength]; rfl⟩
  · exact ⟨_, by simp only [repetitionNumber, if_neg hlength, if_pos h]; rfl⟩

/-- Bounds are read as numbers before it is looked at what they are the bounds of. -/
theorem exists_run_braces {digits back : Text} (hdigits : digits.all isAsciiDigit = true)
    (h : 4294967295 ≤ numberOf 10 digits) (hback : back ≠ ['\\']) :
    ∃ cause, braces.run (s.onto (digits ++ '\x7d' :: back)) = .error (.refused cause) := by
  obtain ⟨cause, hcause⟩ := exists_run_repetitionNumber (s := s.onto back) h
  refine ⟨cause, ?_⟩
  cases digits with
  | nil => exact absurd h (by decide)
  | cons d ds =>
    have hd : d ≠ '\x7d' := by rintro rfl; cases hdigits
    rw [braces, run_get_bind, if_neg (by simpa [Reading.onto] using hd),
      run_bind_ok (run_takeDigits hdigits (by simp) (by simp [isAsciiDigit])),
      run_bind_ok (run_accept_of_ne (by simp))]
    simp only [Bool.false_eq_true, if_false, pure_bind]
    rw [run_bind_ok (run_accept (by decide) hback)]
    simp only [if_true, List.isEmpty_cons, Bool.false_eq_true, if_false]
    exact run_bind_error hcause

theorem exists_run_parts_brace (fuel depth : Nat) (first : Bool) (done : List Part)
    {digits back : Text} (hdigits : digits.all isAsciiDigit = true)
    (h : 4294967295 ≤ numberOf 10 digits) (hback : back ≠ ['\\']) :
    ∃ cause, (parts (fuel + 1) .none depth first done).run (s.onto ('\x7b' :: (digits ++ '\x7d' :: back))) =
      .error (.refused cause) := by
  obtain ⟨cause, hcause⟩ := exists_run_braces (s := s) hdigits h hback
  refine ⟨cause, ?_⟩
  rw [parts, run_bind_ok (run_peek _), token?_cons (by decide)]
  refine (run_bind_ok (run_next_char (by decide) (ne_backslash_of_mem (c := '\x7d') (by decide) (by simp)))).trans ?_
  exact run_bind_error hcause

/-- Characters that mean nothing are passed over. -/
theorem exists_run_parts_plain (fuel depth : Nat) (first : Bool) (done : List Part)
    {front rest : Text} (hfront : ∀ c ∈ front, c ∉ Glob.special)
    (hrest : ∀ front : Text, front ++ rest ≠ ['\\']) :
    ∃ done', (parts (fuel + front.length) .none depth first done).run (s.onto (front ++ rest)) =
      (parts fuel .none depth first done').run (s.onto rest) := by
  induction front generalizing done with
  | nil => exact ⟨done, rfl⟩
  | cons c cs ih =>
    rw [List.forall_mem_cons] at hfront
    obtain ⟨done', hcs⟩ := ih (.node (.literal Flags.none.mode false c.toNat) :: done) hfront.2
    exact ⟨done', (run_parts_literal hfront.1 (hrest cs)).trans hcs⟩

/-- A group that stands too deep is refused, and others are looked into. -/
theorem run_parts_parenthesis {t : Text} {cause : Refusal} (ht : t ≠ ['\\'])
    (hquestion : depth < nestingLimit → t.head? ≠ some '?')
    (hdeep : nestingLimit ≤ depth → cause = .depth)
    (hinner : depth < nestingLimit → ∀ s' : Reading, s'.flags = s.flags →
      (alternatives fuel .none (depth + 1) []).run (s'.onto t) = .error (.refused cause)) :
    (parts (fuel + 1) .none depth first done).run (s.onto ('(' :: t)) = .error (.refused cause) := by
  rw [parts, run_bind_ok (run_peek _), token?_cons (by decide)]
  refine (run_bind_ok (run_next_char (by decide) ht)).trans ?_
  simp only [show Flags.none.verbose = false from rfl, Bool.false_and, Bool.false_eq_true, if_false]
  by_cases hdepth : nestingLimit ≤ depth
  · rw [hdeep hdepth, if_pos hdepth]
    rfl
  · have hlt := Nat.not_le.1 hdepth
    rw [if_neg hdepth, run_bind_ok (run_accept_of_ne (hquestion hlt))]
    have hopen : (openGroup none).run (s.onto t) = .ok (s.widths.length,
        { s with widths := s.widths ++ [none] }.onto t) := rfl
    simp only [Bool.false_eq_true, if_false]
    rw [run_bind_ok hopen]
    exact run_bind_error (hinner hlt _ rfl)

/-- One opening parenthesis too many. -/
theorem run_alternatives_parentheses {k : Nat} {back : Text} (hk : nestingLimit < depth + k)
    (hdepth : depth ≤ nestingLimit) (hfuel : 2 * k ≤ fuel) (hflags : s.flags = .none)
    (hback : back ≠ ['\\']) :
    (alternatives fuel .none depth []).run (s.onto (List.replicate k '(' ++ back)) =
      .error (.refused .depth) := by
  induction k generalizing s depth fuel with
  | zero => omega
  | succ k ih =>
    obtain ⟨fuel, rfl⟩ : ∃ n, fuel = n + 1 + 1 := ⟨fuel - 2, by omega⟩
    have hflags' : (if depth = 0 then (s.onto (List.replicate (k + 1) '(' ++ back)).flags else .none) =
        Flags.none := by
      split
      · exact hflags
      · rfl
    rw [alternatives, run_get_bind, hflags']
    refine run_bind_error (run_parts_parenthesis ?_ ?_ (fun _ => rfl) fun hlt s' hs' =>
      ih (by omega) hlt (by omega) (hs'.trans hflags))
    · cases k with
      | zero => exact hback
      | succ k => simp [List.replicate_succ]
    · intro hlt
      obtain ⟨k, rfl⟩ : ∃ n, k = n + 1 := ⟨k - 1, by omega⟩
      simp [List.replicate_succ]

end

/-- What is refused at its start: behind characters that mean nothing a number that is too large for a
repetition, or more opening parentheses than groups may stand in one another. -/
inductive Extreme : Text → Prop where
  | number {front digits back : Text} (hfront : ∀ c ∈ front, c ∉ Glob.special)
      (hdigits : digits.all isAsciiDigit = true) (h : 4294967295 ≤ numberOf 10 digits)
      (hback : back ≠ ['\\']) : Extreme (front ++ '\x7b' :: (digits ++ '\x7d' :: back))
  | groups {back : Text} (hback : back ≠ ['\\']) :
      Extreme (List.replicate (nestingLimit + 1) '(' ++ back)

theorem parse_of_run_alternatives {t : Text} {e : ParseError} (ht : t ≠ ['\\'])
    (h : (alternatives (4 * t.length + 8) .none 0 []).run (.ofText t) = .error e) :
    Pattern.parse t = .error e := by
  unfold Pattern.parse
  rw [if_neg ht]
  change ((alternatives (4 * t.length + 8) .none 0 []).run (.ofText t) >>= _) = _
  rw [h]
  rfl

/-- Such a text is refused whatever follows. -/
theorem Extreme.refused {t : Text} (h : Extreme t) : ∃ cause, Pattern.parse t = .error (.refused cause) := by
  cases h with
  | @number front digits back hfront hdigits h hback =>
    have hne : ∀ front : Text, front ++ '\x7b' :: (digits ++ '\x7d' :: back) ≠ ['\\'] := fun _ =>
      ne_backslash_of_mem (c := '\x7d') (by decide) (by simp)
    obtain ⟨n, hn⟩ : ∃ n, 4 * (front ++ '\x7b' :: (digits ++ '\x7d' :: back)).length + 7 =
        n + 1 + front.length := by
      refine ⟨3 * front.length + 4 * ('\x7b' :: (digits ++ '\x7d' :: back)).length + 6, ?_⟩
      rw [List.length_append]
      omega
    obtain ⟨done', hplain⟩ := exists_run_parts_plain (s := .ofText []) (n + 1) 0 true [] hfront hne
    obtain ⟨cause, hcause⟩ :=
      exists_run_parts_brace (s := .ofText []) n 0 true done' hdigits h hback
    refine ⟨cause, parse_of_run_alternatives (hne front) ?_⟩
    rw [alternatives, run_get_bind, hn]
    exact run_bind_error (hplain.trans hcause)
  | @groups back hback =>
    refine ⟨.depth, parse_of_run_alternatives (by simp [List.replicate_succ]) ?_⟩
    exact run_alternatives_parentheses (s := .ofText []) (by omega) (Nat.zero_le _)
      (by simp only [List.length_append, List.length_replicate]; omega) rfl hback

end ConfigCare.Regex
