import ConfigCare.Glob.Segment
import ConfigCare.Regex.Search

/-! How the expressions that globs stand for are read. Such an expression is a row of pieces, each of which
is read to its own nodes whatever stands around it: characters, sets, repetitions and bare groups that may
be missing. Only a set can be at fault, by a range that ends before it begins. -/

namespace ConfigCare.Regex

/-! ## Steps of the reading -/

/-- A reading with another text left to read. -/
def Reading.onto (s : Reading) (rest : Text) : Reading := { s with rest := rest }

variable {α β : Type} {s s' : Reading} {rest t : Text} {c : Char} {depth fuel : Nat} {first : Bool}
  {done : List Part}

theorem run_bind_ok {x : Parser α} {f : α → Parser β} {a : α} (h : x.run s = .ok (a, s')) :
    (x >>= f).run s = (f a).run s' := by
  rw [StateT.run_bind, h]
  rfl

theorem run_get_bind {f : Reading → Parser β} : (get >>= f).run s = (f s).run s := rfl

theorem toOption_run_bind (x : Parser α) (f : α → Parser β) (s : Reading) :
    ((x >>= f).run s).toOption =
      (x.run s).toOption.bind fun p => ((f p.1).run p.2).toOption := by
  rw [StateT.run_bind]
  cases x.run s <;> rfl

theorem ne_backslash_of_mem (hc : c ≠ '\\') (h : c ∈ t) : t ≠ ['\\'] := by
  rintro rfl
  exact hc (List.mem_singleton.1 h)

theorem token?_cons (h : c ≠ '\\') : Reading.token? (c :: rest) = some (.char c) := by
  unfold Reading.token?
  split <;> simp_all

theorem afterToken_cons (h : c ≠ '\\') : Reading.afterToken (c :: rest) = rest := by
  unfold Reading.afterToken
  split <;> simp_all

theorem run_peek (t : Text) : peek.run (s.onto t) = .ok (Reading.token? t, s.onto t) := rfl

theorem run_next (h : Reading.afterToken t ≠ ['\\']) :
    next.run (s.onto t) = .ok (Reading.token? t, s.onto (Reading.afterToken t)) := by
  rw [next, run_get_bind]
  simp [goOn, Reading.onto, h]
  rfl

theorem run_next_char (hc : c ≠ '\\') (h : rest ≠ ['\\']) :
    next.run (s.onto (c :: rest)) = .ok (some (.char c), s.onto rest) := by
  rw [run_next (by rwa [afterToken_cons hc]), token?_cons hc, afterToken_cons hc]

theorem run_accept (hc : c ≠ '\\') (h : rest ≠ ['\\']) :
    (accept c).run (s.onto (c :: rest)) = .ok (true, s.onto rest) := by
  rw [accept, run_bind_ok (run_peek _), if_pos (token?_cons hc), run_bind_ok (run_next_char hc h)]
  rfl

theorem run_accept_of_ne (h : t.head? ≠ some c) :
    (accept c).run (s.onto t) = .ok (false, s.onto t) := by
  have hne : Reading.token? t ≠ some (.char c) := by
    unfold Reading.token?
    split <;> simp_all
  rw [accept, run_bind_ok (run_peek t), if_neg hne]
  rfl

/-! ## Sets -/

/-- The members of a set by the characters in its brackets; there are none if a range ends before it
begins. -/
def setMembers : Text → Option (List Member)
  | [] => some []
  | [c] => some [.code c.toNat]
  | c :: d :: cs =>
    if d = '-' then
      match cs with
      | [] => some [.code c.toNat, .code '-'.toNat]
      | e :: cs =>
        if e.toNat < c.toNat then none else (setMembers cs).map (.range c.toNat e.toNat :: ·)
    else (setMembers (d :: cs)).map (.code c.toNat :: ·)

/-- A character as it stands in a set. -/
def inSet (c : Char) : Text := if c = '\\' then ['\\', '\\'] else [c]

/-- The token of a character that stands in a set. -/
def inSetToken (c : Char) : Token := if c = '\\' then .escape '\\' else .char c

theorem inSetToken_eq_char_iff {d : Char} (hd : d ≠ '\\') : inSetToken c = .char d ↔ c = d := by
  unfold inSetToken
  split
  · next h => simp [h, hd.symm]
  · simp

theorem run_next_inSet (h : rest ≠ ['\\']) :
    next.run (s.onto (inSet c ++ rest)) = .ok (some (inSetToken c), s.onto rest) := by
  unfold inSet inSetToken
  split
  · exact run_next h
  · next hc => exact run_next_char hc h

theorem member_inSetToken (c : Char) : member (inSetToken c) = pure (.code c.toNat) := by
  unfold inSetToken
  split
  · next h =>
    subst h
    rfl
  · rfl

theorem inSet_append_ne (c : Char) (t : Text) : inSet c ++ t ≠ ['\\'] := by
  unfold inSet
  split
  · simp
  · next hc => simp [hc]

theorem head?_inSet_append (c : Char) (t : Text) : (inSet c ++ t).head? = some c := by
  unfold inSet
  split
  · next hc => rw [hc]; rfl
  · rfl

section Members

variable {ms : List Member} {d : Char}

theorem run_members_close (h : ms ≠ []) (hrest : rest ≠ ['\\']) :
    (members (fuel + 1) ms).run (s.onto (']' :: rest)) = .ok (ms.reverse, s.onto rest) := by
  rw [members, run_get_bind,
    run_bind_ok (run_next_char (by decide) hrest)]
  simp only [List.isEmpty_eq_false_iff.2 h]
  rfl

/-- A closing bracket that comes first does not close the set. -/
theorem not_closes (hc : c = ']' → ms = []) :
    ¬ ((inSetToken c = .char ']') && !ms.isEmpty) = true := by
  rw [Bool.and_eq_true, decide_eq_true_eq, inSetToken_eq_char_iff (by decide)]
  rintro ⟨rfl, hne⟩
  simp [hc rfl] at hne

/-- A member that no hyphen follows stands for itself. -/
theorem run_members_cons (hc : c = ']' → ms = []) (ht : t.head? ≠ some '-') (hback : t ≠ ['\\']) :
    (members (fuel + 1) ms).run (s.onto (inSet c ++ t)) =
      (members fuel (.code c.toNat :: ms)).run (s.onto t) := by
  rw [members, run_get_bind,
    run_bind_ok (run_next_inSet hback)]
  simp only [if_neg (not_closes hc), member_inSetToken, pure_bind]
  rw [run_bind_ok (run_accept_of_ne ht)]
  rfl

theorem run_members_hyphen (hc : c = ']' → ms = []) (hrest : rest ≠ ['\\']) :
    (members (fuel + 1) ms).run (s.onto (inSet c ++ '-' :: ']' :: rest)) =
      .ok ((.code '-'.toNat :: .code c.toNat :: ms).reverse, s.onto rest) := by
  rw [members, run_get_bind,
    run_bind_ok (run_next_inSet (by simp))]
  simp only [if_neg (not_closes hc), member_inSetToken, pure_bind]
  rw [run_bind_ok (run_accept (by decide) (by simp)), if_pos rfl,
    run_bind_ok (run_next_char (by decide) hrest)]
  rfl

theorem run_members_range (hc : c = ']' → ms = []) (hd : d ≠ ']') (ht : t ≠ ['\\']) :
    ((members (fuel + 1) ms).run (s.onto (inSet c ++ '-' :: (inSet d ++ t)))).toOption =
      if d.toNat < c.toNat then none
      else ((members fuel (.range c.toNat d.toNat :: ms)).run (s.onto t)).toOption := by
  rw [members, run_get_bind,
    run_bind_ok (run_next_inSet (by simp))]
  simp only [if_neg (not_closes hc), member_inSetToken, pure_bind]
  rw [run_bind_ok (run_accept (by decide) (inSet_append_ne d t)), if_pos rfl, run_bind_ok (run_next_inSet ht)]
  split
  · contradiction
  · next h => exact absurd ((inSetToken_eq_char_iff (by decide)).1 (Option.some.inj h)) hd
  · next u _ hu =>
    cases hu
    simp only [member_inSetToken, pure_bind]
    by_cases h : d.toNat < c.toNat
    · have hrange : range? (.code c.toNat) (.code d.toNat) = none := by rw [range?, if_pos h]
      simp only [hrange, if_pos h]
      rfl
    · have hrange : range? (.code c.toNat) (.code d.toNat) = some (.range c.toNat d.toNat) := by
        rw [range?, if_neg h]
      simp only [hrange, if_neg h]

theorem setMembers_cons_cons (hd : d ≠ '-') (cs : Text) :
    setMembers (c :: d :: cs) = (setMembers (d :: cs)).map (.code c.toNat :: ·) := by
  rw [setMembers.eq_def]
  exact if_neg hd

/-- The inside of a set is read as its members. A closing bracket can only be its first character. -/
theorem toOption_run_members {inside : Text} (hfuel : inside.length < fuel)
    (hne : inside = [] → ms ≠ []) (hfirst : inside.head? = some ']' → ms = [])
    (htail : ']' ∉ inside.tail) (hrest : rest ≠ ['\\']) :
    ((members fuel ms).run (s.onto (inside.flatMap inSet ++ ']' :: rest))).toOption =
      (setMembers inside).map fun new => (ms.reverse ++ new, s.onto rest) := by
  have hback (t : Text) : t ++ ']' :: rest ≠ ['\\'] :=
    ne_backslash_of_mem (c := ']') (by decide) (by simp)
  induction inside using setMembers.induct generalizing ms fuel with
  | case1 =>
    obtain ⟨fuel, rfl⟩ : ∃ n, fuel = n + 1 := Nat.exists_eq_add_one.2 hfuel
    rw [List.flatMap_nil, List.nil_append, run_members_close (hne rfl) hrest]
    simp [setMembers, Except.toOption]
  | case2 c =>
    obtain ⟨fuel, rfl⟩ : ∃ n, fuel = n + 1 + 1 := Nat.exists_eq_add_of_le' hfuel
    rw [List.flatMap_cons, List.flatMap_nil, List.append_nil,
      run_members_cons (fun h => hfirst (congrArg some h)) (by simp) (by simp),
      run_members_close (by simp) hrest]
    simp [setMembers, Except.toOption]
  | case3 c =>
    obtain ⟨fuel, rfl⟩ : ∃ n, fuel = n + 1 := Nat.exists_eq_add_one.2 (Nat.zero_lt_of_lt hfuel)
    rw [show [c, '-'].flatMap inSet ++ ']' :: rest = inSet c ++ '-' :: ']' :: rest by simp [inSet],
      run_members_hyphen (fun h => hfirst (congrArg some h)) hrest]
    simp [setMembers, Except.toOption]
  | case4 c d cs hlt =>
    obtain ⟨fuel, rfl⟩ : ∃ n, fuel = n + 1 := Nat.exists_eq_add_one.2 (Nat.zero_lt_of_lt hfuel)
    simp only [List.tail_cons, List.mem_cons, not_or] at htail
    rw [show (c :: '-' :: d :: cs).flatMap inSet ++ ']' :: rest =
        inSet c ++ '-' :: (inSet d ++ (cs.flatMap inSet ++ ']' :: rest)) by simp [inSet],
      run_members_range (fun h => hfirst (congrArg some h)) (Ne.symm htail.2.1) (hback _), if_pos hlt,
      setMembers, if_pos rfl, if_pos hlt]
    rfl
  | case5 c d cs hle ih =>
    obtain ⟨fuel, rfl⟩ : ∃ n, fuel = n + 1 := Nat.exists_eq_add_one.2 (Nat.zero_lt_of_lt hfuel)
    simp only [List.tail_cons, List.mem_cons, not_or] at htail
    rw [show (c :: '-' :: d :: cs).flatMap inSet ++ ']' :: rest =
        inSet c ++ '-' :: (inSet d ++ (cs.flatMap inSet ++ ']' :: rest)) by simp [inSet],
      run_members_range (fun h => hfirst (congrArg some h)) (Ne.symm htail.2.1) (hback _), if_neg hle,
      ih (by simp at hfuel; omega) (by simp) ?_ (fun h => htail.2.2 (List.mem_of_mem_tail h)),
      setMembers, if_pos rfl, if_neg hle, Option.map_map]
    · simp [Function.comp_def]
    · exact fun h => absurd (List.mem_of_mem_head? h) htail.2.2
  | case6 c d cs hd ih =>
    obtain ⟨fuel, rfl⟩ : ∃ n, fuel = n + 1 := Nat.exists_eq_add_one.2 (Nat.zero_lt_of_lt hfuel)
    rw [List.tail_cons] at htail
    rw [List.flatMap_cons, List.append_assoc,
      run_members_cons (fun h => hfirst (congrArg some h))
        (by rw [List.flatMap_cons, List.append_assoc, head?_inSet_append]; simpa using hd) (hback _),
      ih (by simpa using hfuel) (by simp) ?_ (fun h => htail (List.mem_of_mem_tail h)),
      setMembers_cons_cons hd, Option.map_map]
    · simp [Function.comp_def]
    · exact fun h => absurd (List.mem_of_mem_head? h) htail

end Members

/-! ## Parts -/

theorem run_parts_nil : (parts (fuel + 1) .none depth first done).run (s.onto []) =
    .ok (sequenceOf done, s.onto []) := by
  rw [parts, run_bind_ok (run_peek _)]
  rfl

theorem sequenceOf_nodes (ns : List Node) : sequenceOf (ns.map Part.node).reverse = ns := by
  induction ns with
  | nil => rfl
  | cons n ns ih =>
    rw [sequenceOf, List.reverse_reverse] at ih ⊢
    exact congrArg (n :: ·) ih

/-- A sequence ends where the group around it is closed. -/
theorem run_parts_close : (parts (fuel + 1) .none depth first done).run (s.onto (')' :: t)) =
    .ok (sequenceOf done, s.onto (')' :: t)) := by
  rw [parts, run_bind_ok (run_peek _), token?_cons (by decide)]
  rfl

/-- The nodes of the signs that stand for themselves alone. -/
def leafOf? : Char → Option Node
  | '.' => some (.any false)
  | '^' => some (.anchor Flags.none.mode .lineStart)
  | '$' => some (.anchor Flags.none.mode .lineEnd)
  | _ => none

theorem run_parts_leaf {n : Node} (hleaf : leafOf? c = some n) (h : rest ≠ ['\\']) :
    (parts (fuel + 1) .none depth first done).run (s.onto (c :: rest)) =
      (parts fuel .none depth first (.node n :: done)).run (s.onto rest) := by
  unfold leafOf? at hleaf
  split at hleaf
  case h_4 => cases hleaf
  all_goals
    cases hleaf
    rw [parts, run_bind_ok (run_peek _), token?_cons (by decide)]
    exact run_bind_ok (run_next_char (by decide) h)

/-- A character that means nothing in an expression is read as itself. -/
theorem run_parts_literal (hc : c ∉ Glob.special) (h : rest ≠ ['\\']) :
    (parts (fuel + 1) .none depth first done).run (s.onto (c :: rest)) =
      (parts fuel .none depth first (.node (.literal Flags.none.mode false c.toNat) :: done)).run
        (s.onto rest) := by
  have hne (d : Char) (hd : d ∈ Glob.special) : c ≠ d := fun heq => hc (heq ▸ hd)
  have hback : c ≠ '\\' := hne _ (by decide)
  rw [parts, run_bind_ok (run_peek _), token?_cons hback]
  split
  · contradiction
  · next heq => cases heq; exact absurd rfl (hne '|' (by decide))
  · next heq => cases heq; exact absurd rfl (hne ')' (by decide))
  · next heq =>
    cases heq
    rw [run_bind_ok (run_next_char hback h)]
    simp only [Flags.none, Bool.false_and, Bool.false_eq_true, if_false]
    split
    · contradiction
    all_goals next heq => cases heq; first | rfl | exact absurd (by decide) hc

/-- A character that is no letter stands for its own code behind a backslash. -/
theorem letterCode_of_not_letter (hc : Text.isAsciiLetter c = false) :
    letterCode c = pure c.toNat := by
  unfold letterCode
  split
  case h_5 => rw [if_neg (by simp [hc])]
  all_goals exact absurd hc (by decide)

/-- Every character that means something stands for itself behind a backslash. -/
theorem escapeNode_special (hc : c ∈ Glob.special) (mode : Mode) :
    escapeNode mode c = pure (.literal mode false c.toNat) := by
  have hplain : Glob.special.all fun c => decide (anchor? c = none ∧ classMember? c = none ∧
      (c = '\\' ∨ controlCode? c = none ∧ Text.isAsciiDigit c = false ∧
        Text.isAsciiLetter c = false)) := by decide
  obtain ⟨hanchor, hclass, rfl | ⟨hcontrol, hdigit, hletter⟩⟩ :=
    of_decide_eq_true (List.all_eq_true.mp hplain c hc)
  · rfl
  · have hzero : c ≠ '0' := fun heq => by simp [heq, Text.isAsciiDigit] at hdigit
    rw [escapeNode, hanchor, hclass, hcontrol]
    simp only [if_neg hzero, hdigit, Bool.false_eq_true, if_false, letterCode_of_not_letter hletter,
      pure_bind]

theorem run_parts_escape (hc : c ∈ Glob.special) (h : rest ≠ ['\\']) :
    (parts (fuel + 1) .none depth first done).run (s.onto ('\\' :: c :: rest)) =
      (parts fuel .none depth first (.node (.literal Flags.none.mode false c.toNat) :: done)).run
        (s.onto rest) := by
  have hnext : next.run (s.onto ('\\' :: c :: rest)) = .ok (some (.escape c), s.onto rest) := run_next h
  have hescape : (escapeNode Flags.none.mode c).run (s.onto rest) =
      .ok (.literal Flags.none.mode false c.toNat, s.onto rest) := by
    rw [escapeNode_special hc]
    rfl
  rw [parts, run_bind_ok (run_peek _)]
  exact (run_bind_ok hnext).trans
    (run_bind_ok (f := fun n => parts fuel .none depth first (.node n :: done)) hescape)

/-- What stands in the brackets of a set. Its first character may be a closing bracket, and is no caret
unless one stands before it. -/
structure IsInside (negated : Bool) (inside : Text) : Prop where
  ne_nil : inside ≠ []
  sign : negated = false → inside.head? ≠ some '^'
  closed : ']' ∉ inside.tail

/-- A set is read by its members, and is at fault with them. -/
theorem toOption_run_parts_set {negated : Bool} {inside : Text} (hinside : IsInside negated inside)
    (hfuel : inside.length < fuel) (h : rest ≠ ['\\']) :
    ((parts (fuel + 1) .none depth first done).run
        (s.onto (Glob.bracketSet negated inside ++ rest))).toOption =
      (setMembers inside).bind fun ms =>
        ((parts fuel .none depth first (.node (setNode Flags.none.mode negated ms) :: done)).run
          (s.onto rest)).toOption := by
  have htext : Glob.bracketSet negated inside ++ rest =
      '[' :: ((if negated then ['^'] else []) ++ (inside.flatMap inSet ++ ']' :: rest)) := by
    simp only [Glob.bracketSet, List.append_assoc, List.cons_append]
    rfl
  have hback : inside.flatMap inSet ++ ']' :: rest ≠ ['\\'] :=
    ne_backslash_of_mem (c := ']') (by decide) (by simp)
  have hsigned : (accept '^').run
      (s.onto ((if negated then ['^'] else []) ++ (inside.flatMap inSet ++ ']' :: rest))) =
        .ok (negated, s.onto (inside.flatMap inSet ++ ']' :: rest)) := by
    cases negated with
    | true => exact run_accept (by decide) hback
    | false =>
      obtain ⟨c, cs, rfl⟩ := List.exists_cons_of_ne_nil hinside.ne_nil
      refine run_accept_of_ne ?_
      rw [if_neg Bool.false_ne_true, List.nil_append, List.flatMap_cons, List.append_assoc,
        head?_inSet_append]
      exact hinside.sign rfl
  rw [htext, parts, run_bind_ok (run_peek _), token?_cons (by decide)]
  refine (congrArg Except.toOption (run_bind_ok (run_next_char (by decide) ?_))).trans ?_
  · cases negated with
    | true => simp
    | false => exact hback
  · refine (congrArg Except.toOption (run_bind_ok (f := fun negated => members fuel [] >>= fun ms =>
      parts fuel .none depth first (.node (setNode Flags.none.mode negated ms) :: done)) hsigned)).trans ?_
    rw [toOption_run_bind, toOption_run_members hfuel (fun hnil => absurd hnil hinside.ne_nil)
      (fun _ => rfl) hinside.closed h]
    cases setMembers inside <;> rfl

/-- Whether a part can be repeated. -/
def Part.repeats : Part → Bool
  | .node (.anchor ..) => false
  | .node (.repetition ..) => false
  | _ => true

/-- What stands behind a repetition leaves it greedy. -/
theorem run_repeatLast {least : Nat} {most : Option Nat} {p : Part} (hp : p.repeats = true)
    (hreluctant : rest.head? ≠ some '?') (hpossessive : rest.head? ≠ some '+') :
    (repeatLast least most (p :: done)).run (s.onto rest) =
      .ok (.node (.repetition .greedy least most (.ofList p.nodes)) :: done, s.onto rest) := by
  unfold repeatLast
  split
  · contradiction
  · next heq => cases heq; cases hp
  · next heq => cases heq; cases hp
  · next heq =>
    cases heq
    rw [run_bind_ok (run_accept_of_ne hreluctant)]
    simp only [Bool.false_eq_true, if_false]
    rw [run_bind_ok (run_accept_of_ne hpossessive)]
    rfl

/-- The bounds that a sign behind a part stands for. -/
def boundsOf? : Char → Option (Nat × Option Nat)
  | '?' => some (0, some 1)
  | '*' => some (0, none)
  | '+' => some (1, none)
  | _ => none

theorem run_parts_sign {least : Nat} {most : Option Nat} {p : Part}
    (hsign : boundsOf? c = some (least, most)) (hp : p.repeats = true) (hback : rest ≠ ['\\'])
    (hreluctant : rest.head? ≠ some '?') (hpossessive : rest.head? ≠ some '+') :
    (parts (fuel + 1) .none depth first (p :: done)).run (s.onto (c :: rest)) =
      (parts fuel .none depth first
        (.node (.repetition .greedy least most (.ofList p.nodes)) :: done)).run (s.onto rest) := by
  have hlast : (repeatLast least most (p :: done)).run (s.onto rest) =
      .ok (.node (.repetition .greedy least most (.ofList p.nodes)) :: done, s.onto rest) :=
    run_repeatLast hp hreluctant hpossessive
  unfold boundsOf? at hsign
  split at hsign
  case h_4 => cases hsign
  all_goals
    cases hsign
    rw [parts, run_bind_ok (run_peek _), token?_cons (by decide)]
    exact (run_bind_ok (run_next_char (by decide) hback)).trans
      (run_bind_ok (f := fun ps => parts fuel .none depth first ps) hlast)

theorem run_parts_group (hdepth : depth < nestingLimit) (h : t ≠ ['\\']) :
    (parts (fuel + 1) .none depth first done).run (s.onto ('(' :: '?' :: ':' :: t)) =
      (special fuel .none depth ':' >>= fun p => parts fuel .none depth first (p :: done)).run
        (s.onto t) := by
  have haccept : (accept '?').run (s.onto ('?' :: ':' :: t)) = .ok (true, s.onto (':' :: t)) :=
    run_accept (by decide) (by simp)
  rw [parts, run_bind_ok (run_peek _), token?_cons (by decide)]
  refine (run_bind_ok (run_next_char (by decide) (by simp))).trans ?_
  simp only [show Flags.none.verbose = false from rfl, Bool.false_and, Bool.false_eq_true, if_false,
    if_neg (Nat.not_le.2 hdepth)]
  rw [run_bind_ok haccept, if_pos rfl]
  exact run_bind_ok (run_next_char (by decide) h)

/-- A bare group is read as what is in it. -/
theorem toOption_run_special {ns? : Option (List Node)} (hrest : rest ≠ ['\\'])
    (h : ((parts fuel .none (depth + 1) false []).run (s.onto t)).toOption =
      ns?.map fun ns => (ns, s.onto (')' :: rest))) :
    ((special (fuel + 1 + 1) .none depth ':').run (s.onto t)).toOption =
      ns?.map fun ns => (Part.bare ns, s.onto rest) := by
  have halternatives : ((alternatives (fuel + 1) .none (depth + 1) []).run (s.onto t)).toOption =
      ns?.map fun ns => (ns, s.onto (')' :: rest)) := by
    rw [alternatives, run_get_bind]
    refine (toOption_run_bind (parts fuel .none (depth + 1) false []) _ _).trans ?_
    rw [h]
    cases ns? with
    | none => rfl
    | some ns =>
      have haccept : (accept '|').run (s.onto (')' :: rest)) = .ok (false, s.onto (')' :: rest)) :=
        run_accept_of_ne (by simp)
      rw [Option.map_some, Option.bind_some, run_bind_ok haccept]
      rfl
  rw [special, toOption_run_bind, halternatives]
  cases ns? with
  | none => rfl
  | some ns =>
    have hexpect : (expect ')').run (s.onto (')' :: rest)) = .ok ((), s.onto rest) := by
      rw [expect, run_bind_ok (run_accept (by decide) hrest)]
      rfl
    exact congrArg Except.toOption (run_bind_ok hexpect)

/-! ## Pieces -/

/-- A text that can stand behind a piece: it does not change the repetition that the piece may end with,
and it is not a fault as soon as it comes up. -/
structure Follows (rest : Text) : Prop where
  back : rest ≠ ['\\']
  reluctant : rest.head? ≠ some '?'
  possessive : rest.head? ≠ some '+'

theorem follows_cons (hc : c ≠ '\\') (hreluctant : c ≠ '?') (hpossessive : c ≠ '+') (t : Text) :
    Follows (c :: t) :=
  ⟨by simp [hc], by simpa using hreluctant, by simpa using hpossessive⟩

/-- A piece of an expression is read to nodes of its own, or else it is at fault, at any depth of groups and
whatever is read before it and behind. No character of it takes more than one step. -/
structure Reads (depth : Nat) (e : Text) (ns? : Option (List Node)) : Prop where
  follows : ∀ {rest}, Follows rest → Follows (e ++ rest)
  run_parts : ∀ (fuel : Nat) (first : Bool) (done : List Part) (s : Reading) (rest : Text),
    Follows rest → (e ++ rest).length < fuel → ∃ left, rest.length < left ∧
      ((parts fuel .none depth first done).run (s.onto (e ++ rest))).toOption =
        ns?.bind fun ns =>
          ((parts left .none depth first ((ns.map .node).reverse ++ done)).run (s.onto rest)).toOption

namespace Reads

variable {e e' : Text} {ns? ms? : Option (List Node)} {n : Node}

theorem nil (depth : Nat) : Reads depth [] (some []) :=
  ⟨id, fun _ _ _ _ _ _ hfuel => ⟨_, hfuel, rfl⟩⟩

/-- Pieces are read one after the other. -/
theorem append (h : Reads depth e ns?) (h' : Reads depth e' ms?) :
    Reads depth (e ++ e') (ns?.bind fun ns => ms?.map (ns ++ ·)) := by
  refine ⟨fun hrest => ?_, fun fuel first done s rest hrest hfuel => ?_⟩
  · rw [List.append_assoc]
    exact h.follows (h'.follows hrest)
  · rw [List.append_assoc] at hfuel ⊢
    obtain ⟨left, hleft, heq⟩ := h.run_parts fuel first done s _ (h'.follows hrest) hfuel
    cases ns? with
    | none => exact ⟨left, by simp at hleft; omega, heq⟩
    | some ns =>
      obtain ⟨left', hleft', heq'⟩ := h'.run_parts left first
        ((ns.map Part.node).reverse ++ done) s rest hrest hleft
      refine ⟨left', hleft', heq.trans (heq'.trans ?_)⟩
      cases ms? <;> simp

end Reads

/-- A piece that is read in one step to a node of its own. -/
structure ReadsAtOnce (e : Text) (n : Node) : Prop where
  follows : ∀ t, Follows (e ++ t)
  run_parts : ∀ {fuel depth : Nat} {first : Bool} {done : List Part} {s : Reading} {rest : Text},
    rest ≠ ['\\'] → e.length ≤ fuel →
      ((parts (fuel + 1) .none depth first done).run (s.onto (e ++ rest))).toOption =
        ((parts fuel .none depth first (.node n :: done)).run (s.onto rest)).toOption

theorem readsAtOnce_leaf {n : Node} (h : leafOf? c = some n) : ReadsAtOnce [c] n := by
  have hne (d : Char) (hd : leafOf? d = none) : c ≠ d := by
    rintro rfl
    cases h.symm.trans hd
  exact ⟨follows_cons (hne _ rfl) (hne _ rfl) (hne _ rfl),
    fun hrest _ => congrArg Except.toOption (run_parts_leaf h hrest)⟩

/-- A character by itself, behind a backslash if it means something. -/
theorem readsAtOnce_plain (c : Char) :
    ReadsAtOnce (Glob.plain c) (.literal Flags.none.mode false c.toNat) := by
  unfold Glob.plain
  split
  · next hc =>
    exact ⟨fun t => ⟨by simp, by simp, by simp⟩, fun hrest _ =>
      congrArg Except.toOption (run_parts_escape (List.contains_iff_mem.1 hc) hrest)⟩
  · next hc =>
    rw [List.contains_iff_mem] at hc
    have hne (d : Char) (hd : d ∈ Glob.special) : c ≠ d := fun heq => hc (heq ▸ hd)
    exact ⟨follows_cons (hne _ (by decide)) (hne _ (by decide)) (hne _ (by decide)),
      fun hrest _ => congrArg Except.toOption (run_parts_literal hc hrest)⟩

theorem length_le_flatMap_inSet (inside : Text) : inside.length ≤ (inside.flatMap inSet).length := by
  induction inside with
  | nil => exact Nat.le_refl _
  | cons c cs ih =>
    have hc : 1 ≤ (inSet c).length := by
      unfold inSet
      split <;> simp
    rw [List.flatMap_cons, List.length_append, List.length_cons]
    omega

theorem length_le_bracketSet (negated : Bool) (inside : Text) :
    inside.length + 2 ≤ (Glob.bracketSet negated inside).length := by
  have hle := length_le_flatMap_inSet inside
  have hset : (Glob.bracketSet negated inside).length =
      (if negated then ['^'] else []).length + 1 + (inside.flatMap inSet).length + 1 := by
    simp only [Glob.bracketSet, List.length_append, List.length_cons, List.length_nil]
    rfl
  omega

/-- A set whose ranges are in order. -/
theorem readsAtOnce_set {negated : Bool} {inside : Text} {ms : List Member}
    (hinside : IsInside negated inside) (hms : setMembers inside = some ms) :
    ReadsAtOnce (Glob.bracketSet negated inside) (setNode Flags.none.mode negated ms) := by
  refine ⟨fun t => follows_cons (c := '[') (by decide) (by decide) (by decide) _,
    fun hrest hfuel => ?_⟩
  have hlength := length_le_bracketSet negated inside
  rw [toOption_run_parts_set hinside (by omega) hrest, hms]
  rfl

theorem readsAtOnce_notSlash :
    ReadsAtOnce (Text.lit "[^/]") (.literal Flags.none.mode true '/'.toNat) := by
  have hinside : IsInside true ['/'] := ⟨by decide, by decide, by decide⟩
  exact readsAtOnce_set hinside rfl

theorem ReadsAtOnce.pos {e : Text} {n : Node} (h : ReadsAtOnce e n) : 0 < e.length := by
  rw [List.length_pos_iff]
  rintro rfl
  exact (h.follows ['\\']).back rfl

namespace Reads

variable {e : Text} {ns? : Option (List Node)} {n : Node}

theorem of_atOnce (h : ReadsAtOnce e n) (depth : Nat) : Reads depth e (some [n]) := by
  refine ⟨fun _ => h.follows _, fun fuel first done s rest hrest hfuel => ?_⟩
  have hpos := h.pos
  rw [List.length_append] at hfuel
  obtain ⟨fuel, rfl⟩ : ∃ m, fuel = m + 1 := Nat.exists_eq_add_one.2 (by omega)
  exact ⟨fuel, by omega, h.run_parts hrest.back (by omega)⟩

/-- A set with a range that ends before it begins. -/
theorem of_faulty_set (depth : Nat) {negated : Bool} {inside : Text} (hinside : IsInside negated inside)
    (hms : setMembers inside = none) : Reads depth (Glob.bracketSet negated inside) none := by
  refine ⟨fun _ => follows_cons (c := '[') (by decide) (by decide) (by decide) _,
    fun fuel first done s rest hrest hfuel => ?_⟩
  have hlength := length_le_bracketSet negated inside
  rw [List.length_append] at hfuel
  obtain ⟨fuel, rfl⟩ : ∃ m, fuel = m + 1 := Nat.exists_eq_add_one.2 (by omega)
  refine ⟨fuel, by omega, ?_⟩
  rw [toOption_run_parts_set hinside (by omega) hrest.back, hms]
  rfl

/-- A piece that is repeated. -/
theorem repeated {least : Nat} {most : Option Nat} (h : ReadsAtOnce e n)
    (hrepeats : (Part.node n).repeats = true) (hsign : boundsOf? c = some (least, most))
    (depth : Nat) :
    Reads depth (e ++ [c]) (some [.repetition .greedy least most n]) := by
  refine ⟨fun _ => ?_, fun fuel first done s rest hrest hfuel => ?_⟩
  · rw [List.append_assoc]
    exact h.follows _
  · have hpos := h.pos
    have hc : c ≠ '\\' := by
      rintro rfl
      cases hsign
    rw [List.append_assoc, List.singleton_append] at hfuel ⊢
    rw [List.length_append, List.length_cons] at hfuel
    obtain ⟨fuel, rfl⟩ : ∃ m, fuel = m + 1 + 1 := ⟨fuel - 2, by omega⟩
    refine ⟨fuel, by omega, (h.run_parts (by simp [hc]) (by omega)).trans ?_⟩
    exact congrArg Except.toOption
      (run_parts_sign hsign hrepeats hrest.back hrest.reluctant hrest.possessive)

/-- A bare group that may be missing. -/
theorem group (h : Reads (depth + 1) e ns?) (hdepth : depth < nestingLimit) :
    Reads depth (Text.lit "(?:" ++ e ++ Text.lit ")?")
      (ns?.map fun ns => [.repetition .greedy 0 (some 1) (.ofList ns)]) := by
  refine ⟨fun _ => follows_cons (c := '(') (by decide) (by decide) (by decide) _,
    fun fuel first done s rest hrest hfuel => ?_⟩
  have htext : Text.lit "(?:" ++ e ++ Text.lit ")?" ++ rest =
      '(' :: '?' :: ':' :: (e ++ ')' :: '?' :: rest) := by
    rw [List.append_assoc, List.append_assoc]
    rfl
  rw [htext] at hfuel ⊢
  simp only [List.length_cons, List.length_append] at hfuel
  obtain ⟨fuel, rfl⟩ : ∃ m, fuel = m + 1 + 1 + 1 := ⟨fuel - 3, by omega⟩
  have hclose : Follows (')' :: '?' :: rest) := follows_cons (by decide) (by decide) (by decide) _
  obtain ⟨left, hleft, hparts⟩ := h.run_parts fuel false [] s _ hclose
    (by simp only [List.length_cons, List.length_append]; omega)
  have hinside : ((parts fuel .none (depth + 1) false []).run (s.onto (e ++ ')' :: '?' :: rest))).toOption =
      ns?.map fun ns => (ns, s.onto (')' :: '?' :: rest)) := by
    obtain ⟨left, rfl⟩ : ∃ m, left = m + 1 := ⟨left - 1, by omega⟩
    rw [hparts]
    cases ns? with
    | none => rfl
    | some ns =>
      rw [Option.bind_some, run_parts_close]
      rw [List.append_nil, sequenceOf_nodes]
      rfl
  refine ⟨fuel + 1, by omega, ?_⟩
  have hback : e ++ ')' :: '?' :: rest ≠ ['\\'] :=
    ne_backslash_of_mem (c := ')') (by decide) (by simp)
  rw [run_parts_group hdepth hback, toOption_run_bind, toOption_run_special (by simp) hinside]
  cases ns? with
  | none => rfl
  | some ns =>
    exact congrArg Except.toOption (run_parts_sign (p := .bare ns) rfl rfl hrest.back hrest.reluctant
      hrest.possessive)

end Reads

theorem looksBehindFixed_ofList {ns : List Node} (h : ∀ n ∈ ns, n.looksBehindFixed = true) :
    (Node.ofList ns).looksBehindFixed = true := by
  induction ns with
  | nil => rfl
  | cons n ns ih =>
    rw [List.forall_mem_cons] at h
    cases ns with
    | nil => exact h.1
    | cons m ms => exact Bool.and_eq_true_iff.2 ⟨h.1, ih h.2⟩

/-- The reading of a whole text, which is all of it to be read. -/
def Reading.ofText (e : Text) : Reading := ⟨e, .none, [none], [], none, []⟩

/-- An expression without flags and numbered groups is all right once it has been read. -/
theorem toOption_parse_of_run {e : Text} {ns? : Option (List Node)} (he : e ≠ ['\\'])
    (h : ((alternatives (4 * e.length + 8) .none 0 []).run (.ofText e)).toOption =
      ns?.map fun ns => (ns, .ofText []))
    (hfixed : ∀ ns, ns? = some ns → ∀ n ∈ ns, n.looksBehindFixed = true) :
    (Pattern.parse e).toOption = ns?.map fun ns => ⟨.ofList ns⟩ := by
  unfold Pattern.parse
  rw [if_neg he]
  change (((alternatives (4 * e.length + 8) .none 0 []).run (.ofText e)) >>= _).toOption = _
  cases hrun : (alternatives (4 * e.length + 8) .none 0 []).run (.ofText e) with
  | error err =>
    rw [hrun] at h
    cases ns? with
    | none => rfl
    | some ns => cases h
  | ok p =>
    rw [hrun] at h
    cases ns? with
    | none => cases h
    | some ns =>
      obtain rfl := Option.some.inj h
      have hroot := looksBehindFixed_ofList (hfixed ns rfl)
      simp [hroot, Reading.ofText, Flags.none, Bind.bind, Except.bind]
      rfl

/-- A piece may be all of an expression. -/
theorem Reads.toOption_parse {e : Text} {ns? : Option (List Node)} (h : Reads 0 e ns?)
    (hfixed : ∀ ns, ns? = some ns → ∀ n ∈ ns, n.looksBehindFixed = true) :
    (Pattern.parse e).toOption = ns?.map fun ns => ⟨.ofList ns⟩ := by
  have hnil : Follows [] := ⟨by simp, by simp, by simp⟩
  have he : e ≠ ['\\'] := by simpa using (h.follows hnil).back
  obtain ⟨left, hleft, hread⟩ := h.run_parts (4 * e.length + 7) true [] (.ofText []) [] hnil
    (by rw [List.append_nil]; omega)
  obtain ⟨left, rfl⟩ : ∃ m, left = m + 1 := Nat.exists_eq_add_one.2 hleft
  rw [List.append_nil] at hread
  refine toOption_parse_of_run he ?_ hfixed
  rw [alternatives, run_get_bind]
  refine (toOption_run_bind (parts (4 * e.length + 7) .none 0 true []) _ _).trans ?_
  refine (congrArg (Option.bind · _) hread).trans ?_
  cases ns? with
  | none => rfl
  | some ns =>
    rw [Option.bind_some, run_parts_nil, List.append_nil, sequenceOf_nodes]
    rfl

end ConfigCare.Regex
