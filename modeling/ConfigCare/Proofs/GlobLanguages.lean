import ConfigCare.Glob.IgnoreList
import ConfigCare.Proofs.ExpressionLanguages
import ConfigCare.Proofs.Margins

/-! What a glob matches, told by its segments. A segment is a row of items, each of which takes the texts
of a language of its own; segments follow each other with slashes between them, and below what the last one
takes everything is matched. The expression that a glob is turned into matches just these texts. -/

namespace ConfigCare.Glob

open Regex (Expresses Flags IsInside Member Node Pattern allOf oneOf setNode)

/-! ## Items -/

/-- What a segment is made of. A set is given by its expression. -/
inductive Item where
  | char (c : Char)
  | star
  | one
  | set (expression : Text)
deriving DecidableEq

def Item.expression : Item → Text
  | .char c => plain c
  | .star => Text.lit "[^/]*"
  | .one => Text.lit "[^/]"
  | .set e => e

/-- The items of a segment; `skip` counts the characters that a set has taken already. -/
def itemsFrom : Nat → Text → Option (List Item)
  | _, [] => some []
  | skip + 1, _ :: cs => itemsFrom skip cs
  | 0, '\\' :: [] => none
  | 0, '\\' :: c :: cs => (itemsFrom 0 cs).map (.char c :: ·)
  | 0, c :: cs =>
    if c = '*' then (itemsFrom 0 cs).map (.star :: ·)
    else if c = '?' then (itemsFrom 0 cs).map (.one :: ·)
    else if c = '[' then
      match bracket? cs with
      | some (set, n) => (itemsFrom n cs).map (.set set :: ·)
      | none => (itemsFrom 0 cs).map (.char '[' :: ·)
    else (itemsFrom 0 cs).map (.char c :: ·)

variable {c : Char} {skip n : Nat} {s e set : Text} {is : List Item} {i : Item}

/-- The expression of a segment is made of those of its items. -/
theorem segmentFrom_eq (skip : Nat) (s : Text) :
    segmentFrom skip s = (itemsFrom skip s).map fun is => is.flatMap Item.expression := by
  induction skip, s using segmentFrom.induct with
  | case1 skip => cases skip <;> rfl
  | case2 skip c cs ih => exact ih
  | case3 => rfl
  | case4 c cs ih =>
    rw [segmentFrom, ih, itemsFrom]
    cases itemsFrom 0 cs <;> rfl
  | case5 cs _ _ ih =>
    change (segmentFrom 0 cs).map _ = ((itemsFrom 0 cs).map _).map _
    rw [ih]
    cases itemsFrom 0 cs <;> rfl
  | case6 cs _ _ _ ih =>
    change (segmentFrom 0 cs).map _ = ((itemsFrom 0 cs).map _).map _
    rw [ih]
    cases itemsFrom 0 cs <;> rfl
  | case7 cs set n hset hend hescape hstar hone ih =>
    rw [segmentFrom.eq_5 _ _ hend hescape, itemsFrom.eq_5 _ _ hend hescape]
    simp only [if_neg hstar, if_neg hone, if_true, hset, ih]
    cases itemsFrom n cs <;> rfl
  | case8 cs hset hend hescape hstar hone ih =>
    rw [segmentFrom.eq_5 _ _ hend hescape, itemsFrom.eq_5 _ _ hend hescape]
    simp only [if_neg hstar, if_neg hone, if_true, hset, ih]
    cases itemsFrom 0 cs <;> rfl
  | case9 c cs hend hescape hstar hone hset ih =>
    rw [segmentFrom.eq_5 _ _ hend hescape, itemsFrom.eq_5 _ _ hend hescape]
    simp only [if_neg hstar, if_neg hone, if_neg hset, ih]
    cases itemsFrom 0 cs <;> rfl

theorem notMem_of_upToBracket {s inside rest : Text}
    (h : bracketEnd?.upToBracket s = some (inside, rest)) : ']' ∉ inside := by
  unfold bracketEnd?.upToBracket at h
  split at h
  · cases h
  · cases h
    intro hmem
    simpa using List.mem_takeWhile_imp hmem

theorem bracketEnd?_spec {s inside rest : Text} (h : bracketEnd? s = some (inside, rest)) :
    inside ≠ [] ∧ ']' ∉ inside.tail ∧ inside.head? = s.head? := by
  unfold bracketEnd? at h
  split at h
  · next cs =>
    obtain ⟨⟨more, rest'⟩, hmore, heq⟩ := Option.map_eq_some_iff.1 h
    cases heq
    exact ⟨by simp, notMem_of_upToBracket hmore, rfl⟩
  · next hfirst =>
    have hclosed := notMem_of_upToBracket h
    cases s with
    | nil => cases h
    | cons c cs =>
      have hc : c ≠ ']' := fun heq => hfirst cs (congrArg (· :: cs) heq)
      unfold bracketEnd?.upToBracket at h
      rw [List.dropWhile_cons_of_pos (by simpa using hc),
        List.takeWhile_cons_of_pos (by simpa using hc)] at h
      split at h
      · cases h
      · cases h
        exact ⟨by simp, fun hmem => hclosed (List.mem_cons_of_mem _ hmem), rfl⟩

theorem bracket?_spec (h : bracket? s = some (set, n)) :
    ∃ negated inside, set = bracketSet negated inside ∧ IsInside negated inside := by
  simp only [bracket?] at h
  split at h
  · cases h
  · next inside rest hend =>
    cases h
    obtain ⟨hne, hclosed, hhead⟩ := bracketEnd?_spec hend
    refine ⟨_, inside, rfl, hne, fun hplain => ?_, hclosed⟩
    rw [hhead, if_neg (by rw [hplain]; exact Bool.false_ne_true)]
    simp only [Bool.or_eq_false_iff, decide_eq_false_iff_not] at hplain
    exact hplain.2

/-- Whether an item may come from a segment: its character stands there, or its set is one. -/
def Item.StandsIn (s : Text) : Item → Prop
  | .char c => c ∈ s
  | .set e => ∃ negated inside, e = bracketSet negated inside ∧ IsInside negated inside
  | _ => True

theorem Item.StandsIn.cons (h : i.StandsIn s) (c : Char) : i.StandsIn (c :: s) := by
  cases i with
  | char => exact List.mem_cons_of_mem _ h
  | _ => exact h

theorem standsIn_of_itemsFrom (h : itemsFrom skip s = some is) : ∀ i ∈ is, i.StandsIn s := by
  -- An item that begins a segment stands in it, and the others stand in the rest of it.
  have step {skip : Nat} {c : Char} {cs : Text} {i : Item} {is : List Item}
      (ih : ∀ {is}, itemsFrom skip cs = some is → ∀ i ∈ is, i.StandsIn cs)
      (h : (itemsFrom skip cs).map (i :: ·) = some is) (hi : i.StandsIn (c :: cs)) :
      ∀ i ∈ is, i.StandsIn (c :: cs) := by
    obtain ⟨js, hjs, rfl⟩ := Option.map_eq_some_iff.1 h
    exact List.forall_mem_cons.2 ⟨hi, fun j hj => (ih hjs j hj).cons c⟩
  induction skip, s using itemsFrom.induct generalizing is with
  | case1 =>
    cases h
    simp
  | case2 skip c cs ih => exact fun i hi => (ih h i hi).cons c
  | case3 => cases h
  | case4 c cs ih =>
    intro i hi
    exact (step ih h List.mem_cons_self i hi).cons '\\'
  | case5 cs _ _ ih => exact step ih h trivial
  | case6 cs _ _ _ ih => exact step ih h trivial
  | case7 cs set n hset hend hescape hstar hone ih =>
    rw [itemsFrom.eq_5 _ _ hend hescape, if_neg hstar, if_neg hone, if_pos rfl, hset] at h
    exact step ih h (bracket?_spec hset)
  | case8 cs hset hend hescape hstar hone ih =>
    rw [itemsFrom.eq_5 _ _ hend hescape, if_neg hstar, if_neg hone, if_pos rfl, hset] at h
    exact step ih h List.mem_cons_self
  | case9 c cs hend hescape hstar hone hset ih =>
    rw [itemsFrom.eq_5 _ _ hend hescape, if_neg hstar, if_neg hone, if_neg hset] at h
    exact step ih h List.mem_cons_self

/-! ## What items take -/

/-- The texts without a slash, which may be a name. -/
def names : Language Char := allOf (· != '/')

/-- The texts that an item takes; of a set's it is told by its own expression. -/
def Item.language : Item → Language Char
  | .char c => {[c]}
  | .star => names
  | .one => oneOf (· != '/')
  | .set e => {u | ∃ x p, u = [x] ∧ Pattern.parse e = .ok p ∧ p.matchesStart [x] = true}

theorem test?_literal (negated : Bool) (c : Char) :
    (Node.literal Flags.none.mode negated c.toNat).test? = some fun x => (x == c) != negated := by
  have hcode : Flags.none.mode.foldedCode c.toNat = c.toNat := by
    unfold Regex.Mode.foldedCode
    split
    · rfl
    · rw [Char.ofNat_toNat]
      rfl
  refine congrArg some (funext fun x => congrArg (· != negated) ?_)
  change (Flags.none.mode.foldedCode c.toNat == x.toNat) = (x == c)
  rw [hcode, Bool.eq_iff_iff, beq_iff_eq, beq_iff_eq]
  exact ⟨fun h => Char.toNat_inj.1 h.symm, fun h => h ▸ rfl⟩

theorem test?_notSlash : (Node.literal Flags.none.mode true '/'.toNat).test? = some (· != '/') :=
  (test?_literal true '/').trans (congrArg some (funext fun x => by simp [bne]))

theorem exists_test?_setNode (mode : Regex.Mode) (negated : Bool) (ms : List Member) :
    ∃ test, (setNode mode negated ms).test? = some test := by
  unfold setNode
  split <;> exact ⟨_, rfl⟩

theorem oneOf_beq (c : Char) : oneOf (· == c) = {[c]} := by
  ext u
  constructor
  · rintro ⟨x, rfl, hx⟩
    rw [beq_iff_eq.1 hx]
    rfl
  · rintro rfl
    exact ⟨c, rfl, beq_self_eq_true c⟩

theorem expresses_plain (c : Char) (depth : Nat) : Expresses depth (plain c) {[c]} := by
  have htest : (Node.literal Flags.none.mode false c.toNat).test? = some (· == c) := by
    simpa using test?_literal false c
  rw [← oneOf_beq]
  exact (Regex.readsAtOnce_plain c).expresses htest depth

/-- A set is at fault, or else takes the characters that its expression alone matches. -/
theorem expresses_set {negated : Bool} {inside : Text} (h : IsInside negated inside) :
    Expresses 0 (bracketSet negated inside) (Item.set (bracketSet negated inside)).language := by
  cases hms : Regex.setMembers inside with
  | none => exact ⟨none, .of_faulty_set 0 h hms, nofun⟩
  | some ms =>
    have hatOnce := Regex.readsAtOnce_set h hms
    obtain ⟨test, htest⟩ := exists_test?_setNode Flags.none.mode negated ms
    obtain ⟨p, hparse, hmatches⟩ := hatOnce.matchesStart_eq htest
    have hlanguage : (Item.set (bracketSet negated inside)).language = oneOf test := by
      ext u
      constructor
      · rintro ⟨x, q, rfl, hq, hx⟩
        cases hparse.symm.trans hq
        exact ⟨x, rfl, hmatches x ▸ hx⟩
      · rintro ⟨x, rfl, hx⟩
        exact ⟨x, p, rfl, hparse, (hmatches x).trans hx⟩
    rw [hlanguage]
    exact hatOnce.expresses htest 0

theorem Item.expresses (hi : i.StandsIn s) : Expresses 0 i.expression i.language := by
  cases i with
  | char c => exact expresses_plain c 0
  | star =>
    have hnames : names = {u | 0 ≤ u.length ∧ u ∈ allOf (· != '/')} := by
      ext u
      exact ⟨fun hu => ⟨Nat.zero_le _, hu⟩, And.right⟩
    rw [language, hnames]
    exact Regex.readsAtOnce_notSlash.expresses_repeated (c := '*') test?_notSlash rfl 0
  | one => exact Regex.readsAtOnce_notSlash.expresses test?_notSlash 0
  | set e =>
    obtain ⟨negated, inside, rfl, hinside⟩ := hi
    exact expresses_set hinside

/-- The texts that a segment takes, whose items take one after the other. -/
def itemsLanguage (is : List Item) : Language Char := (is.map Item.language).prod

theorem expresses_items (h : ∀ i ∈ is, i.StandsIn s) :
    Expresses 0 (is.flatMap Item.expression) (itemsLanguage is) := by
  induction is with
  | nil => exact Regex.expresses_nil 0
  | cons i is ih =>
    rw [List.forall_mem_cons] at h
    rw [List.flatMap_cons, itemsLanguage, List.map_cons, List.prod_cons]
    exact (Item.expresses h.1).append (ih h.2)

/-! ## What segments take -/

/-- The texts without a line break. -/
def inLine : Language Char := allOf (· != '\n')

/-- The texts of a language that are not empty. -/
def nonempty (l : Language Char) : Language Char := {u | 1 ≤ u.length ∧ u ∈ l}

/-- The texts that lead from a slash on. -/
def underSlash : Language Char := {['/']} * inLine

/-- The texts that a segment takes. -/
def segmentLanguage (s : Text) : Language Char :=
  if s = ['*'] then nonempty names
  else
    match itemsFrom 0 s with
    | some is => itemsLanguage is
    | none => 0

/-- The texts that the segments from one on take, as `expressionFrom` tells them. -/
def languageFrom (first slash : Bool) : List Text → Language Char
  | [] => 1
  | s :: rest =>
    let last := rest.isEmpty
    if s = doubleStar then
      if first && last then nonempty names * (1 + underSlash)
      else if first then (1 + nonempty inLine * {['/']}) * languageFrom false false rest
      else if last then underSlash
      else (1 + {['/']} * nonempty inLine) * languageFrom false true rest
    else
      (if slash then {['/']} else 1) * segmentLanguage s * (if last then 1 + underSlash else 1) *
        languageFrom false true rest

section Pieces

variable (depth : Nat)

theorem expresses_slash : Expresses depth ['/'] {['/']} := expresses_plain '/' depth

theorem expresses_inLine : Expresses depth (Text.lit ".*") inLine := by
  have hall : inLine = {u | 0 ≤ u.length ∧ u ∈ allOf (· != '\n')} := by
    ext u
    exact ⟨fun hu => ⟨Nat.zero_le _, hu⟩, And.right⟩
  rw [hall]
  exact (Regex.readsAtOnce_leaf (c := '.') rfl).expresses_repeated (c := '*') rfl rfl depth

theorem expresses_nonempty_inLine : Expresses depth (Text.lit ".+") (nonempty inLine) :=
  (Regex.readsAtOnce_leaf (c := '.') rfl).expresses_repeated (c := '+') rfl rfl depth

theorem expresses_nonempty_names : Expresses depth (Text.lit "[^/]+") (nonempty names) :=
  Regex.readsAtOnce_notSlash.expresses_repeated (c := '+') test?_notSlash rfl depth

theorem expresses_underSlash : Expresses depth (Text.lit "/.*") underSlash :=
  (expresses_slash depth).append (expresses_inLine depth)

end Pieces

theorem expresses_below : Expresses 0 (Text.lit "(?:/.*)?") (1 + underSlash) :=
  (expresses_underSlash 1).group (by decide)

theorem expresses_segment (h : (if s = ['*'] then some (Text.lit "[^/]+") else segment? s) = some e) :
    Expresses 0 e (segmentLanguage s) := by
  unfold segmentLanguage
  split at h
  · next hstar =>
    cases h
    rw [if_pos hstar]
    exact expresses_nonempty_names 0
  · next hstar =>
    rw [segment?, segmentFrom_eq] at h
    obtain ⟨is, his, rfl⟩ := Option.map_eq_some_iff.1 h
    rw [if_neg hstar, his]
    exact expresses_items (standsIn_of_itemsFrom his)

/-- The expression of segments takes just what the segments take. -/
theorem expresses_expressionFrom {first slash : Bool} {ss : List Text}
    (h : expressionFrom first slash ss = some e) : Expresses 0 e (languageFrom first slash ss) := by
  induction ss generalizing first slash e with
  | nil =>
    cases h
    exact Regex.expresses_nil 0
  | cons s rest ih =>
    simp only [expressionFrom] at h
    simp only [languageFrom]
    split at h
    · next hstars =>
      rw [if_pos hstars]
      split at h
      · next honly =>
        cases h
        rw [if_pos honly]
        exact (expresses_nonempty_names 0).append expresses_below
      · next honly =>
        rw [if_neg honly]
        split at h
        · next hfirst =>
          obtain ⟨r, hr, rfl⟩ := Option.map_eq_some_iff.1 h
          rw [if_pos hfirst]
          exact ((((expresses_nonempty_inLine 1).append (expresses_slash 1)).group (by decide)).append
            (ih hr))
        · next hfirst =>
          rw [if_neg hfirst]
          split at h
          · next hlast =>
            cases h
            rw [if_pos hlast]
            exact expresses_underSlash 0
          · next hlast =>
            obtain ⟨r, hr, rfl⟩ := Option.map_eq_some_iff.1 h
            rw [if_neg hlast]
            exact (((expresses_slash 1).append (expresses_nonempty_inLine 1)).group (by decide)).append
              (ih hr)
    · next hstars =>
      rw [if_neg hstars]
      split at h
      · cases h
      · next e' hsegment =>
        obtain ⟨r, hr, rfl⟩ := Option.map_eq_some_iff.1 h
        refine ((Regex.Expresses.append ?_ (expresses_segment hsegment)).append ?_).append (ih hr)
        · cases slash
          · exact Regex.expresses_nil 0
          · exact expresses_slash 0
        · cases rest.isEmpty
          · exact Regex.expresses_nil 0
          · exact expresses_below

/-- The texts that a glob without an exclamation mark takes. -/
def globLanguage (s : Text) : Language Char :=
  let ss := collapseStars (Text.splitOn '/' s)
  if ss = [doubleStar, []] then nonempty inLine * underSlash
  else languageFrom true false (closed (anchored ss))

/-- The expression of a glob matches just the texts that the glob takes, if they hold no line break. -/
theorem matchesStart_iff_mem_globLanguage {g : Text} {p : Pattern} (h : Rule.expression? g = some e)
    (hparse : Pattern.parse e = .ok p) (hs : '\n' ∉ s) :
    p.matchesStart s = true ↔ s ∈ globLanguage g := by
  simp only [Rule.expression?] at h
  simp only [globLanguage]
  split at h
  · next hstars =>
    cases h
    rw [if_pos hstars]
    exact ((expresses_nonempty_inLine 0).append (expresses_underSlash 0)).matchesStart_iff hparse hs
  · next hstars =>
    rw [if_neg hstars]
    split at h
    · cases h
    · obtain ⟨r, hr, rfl⟩ := Option.map_eq_some_iff.1 h
      exact (expresses_expressionFrom hr).matchesStart_iff hparse hs

end ConfigCare.Glob
