import ConfigCare.Proofs.CanonicalForm

/-! The value that the tokens of a JSON text denote, with every member that is written: a table of it
holds a key as often as the key comes. The grammar knows no limit on nesting and none on digits, and
no tokens denote two values: `Denotes.unique`. Read into a table, a key that comes again keeps its
place and takes the later value, and so the value is `settled`. -/

namespace ConfigCare

namespace Data

mutual

/-- The value with each of its tables as its members make it. -/
def settled : Data → Data
  | .null => .null
  | .bool b => .bool b
  | .int n => .int n
  | .float x => .float x
  | .text s => .text s
  | .moment m => .moment m
  | .list vs => .list (settledItems vs)
  | .table es => .table (ofMembers (settledMembers es))

def settledItems : List Data → List Data
  | [] => []
  | v :: vs => settled v :: settledItems vs

def settledMembers : List (WideText × Data) → List (WideText × Data)
  | [] => []
  | (k, v) :: es => (k, settled v) :: settledMembers es

end

mutual

/-- Whether a table in a value holds a key more than once. -/
def repeatsKey : Data → Bool
  | .null => false
  | .bool _ => false
  | .int _ => false
  | .float _ => false
  | .text _ => false
  | .moment _ => false
  | .list vs => itemsRepeatKey vs
  | .table es => !(es.map Prod.fst).Nodup || membersRepeatKey es

def itemsRepeatKey : List Data → Bool
  | [] => false
  | v :: vs => repeatsKey v || itemsRepeatKey vs

def membersRepeatKey : List (WideText × Data) → Bool
  | [] => false
  | (_, v) :: es => repeatsKey v || membersRepeatKey es

end

theorem settledItems_eq (vs : List Data) : settledItems vs = vs.map settled := by
  induction vs with
  | nil => rfl
  | cons v vs ih => rw [settledItems, ih, List.map_cons]

theorem settledMembers_eq (es : Entries) :
    settledMembers es = es.map fun e => (e.1, e.2.settled) := by
  induction es with
  | nil => rfl
  | cons e es ih => rw [settledMembers, ih, List.map_cons]

theorem keys_settledMembers (es : Entries) :
    (settledMembers es).map Prod.fst = es.map Prod.fst := by
  rw [settledMembers_eq, List.map_map]
  rfl

mutual

/-- Nothing is lost of a value if and only if none of its tables holds a key twice. -/
theorem settled_eq_iff : ∀ v : Data, v.settled = v ↔ v.repeatsKey = false
  | .null => by simp [settled, repeatsKey]
  | .bool _ => by simp [settled, repeatsKey]
  | .int _ => by simp [settled, repeatsKey]
  | .float _ => by simp [settled, repeatsKey]
  | .text _ => by simp [settled, repeatsKey]
  | .moment _ => by simp [settled, repeatsKey]
  | .list vs => by rw [settled, repeatsKey, list.injEq, settledItems_eq_iff vs]
  | .table es => by
    rw [settled, repeatsKey, table.injEq, Bool.or_eq_false_iff, ← settledMembers_eq_iff es]
    have hkeys := keys_settledMembers es
    constructor
    · intro h
      have hdistinct : (es.map Prod.fst).Nodup := h ▸ nodup_ofMembers (settledMembers es)
      refine ⟨by simpa using hdistinct, ?_⟩
      rwa [ofMembers_eq_self (hkeys ▸ hdistinct)] at h
    · rintro ⟨hdistinct, h⟩
      rw [h]
      exact ofMembers_eq_self (by simpa using hdistinct)

theorem settledItems_eq_iff : ∀ vs : List Data, settledItems vs = vs ↔ itemsRepeatKey vs = false
  | [] => by simp [settledItems, itemsRepeatKey]
  | v :: vs => by
    rw [settledItems, itemsRepeatKey, List.cons.injEq, Bool.or_eq_false_iff, settled_eq_iff v,
      settledItems_eq_iff vs]

theorem settledMembers_eq_iff : ∀ es : Entries, settledMembers es = es ↔ membersRepeatKey es = false
  | [] => by simp [settledMembers, membersRepeatKey]
  | (k, v) :: es => by
    rw [settledMembers, membersRepeatKey, List.cons.injEq, Bool.or_eq_false_iff, Prod.mk.injEq,
      settled_eq_iff v, settledMembers_eq_iff es]
    simp

end

end Data

namespace Json

open Jsonc (Token)

/-- The value of a number of any length. -/
def Numeral.data (n : Numeral) : Data :=
  if n.fraction.isEmpty && n.exponent.isNone then
    .int (if n.negative then -Text.numberOf 10 n.whole else Text.numberOf 10 n.whole)
  else .float (.ofDecimal n.negative n.coefficient (n.power - n.fraction.length))

theorem Numeral.data_of_value {n : Numeral} {v : Data} (h : n.value = .ok v) : n.data = v := by
  unfold Numeral.value at h
  unfold Numeral.data
  split at h
  · next hwhole =>
    rw [if_pos hwhole]
    split at h
    · cases h
    · cases h
      rfl
  · next hdecimal =>
    rw [if_neg hdecimal]
    cases h
    rfl

/-! ## Tokens of values -/

/-- A string literal, with its quotes, and the string that it stands for. -/
def Literal (s : Text) (v : WideText) : Prop :=
  ∃ q n, s = '"' :: q ∧ stringFrom 0 [] 1 q = .ok (v, ⟨n, []⟩)

theorem Literal.unique {s : Text} {v w : WideText} (hv : Literal s v) (hw : Literal s w) : v = w := by
  obtain ⟨q, n, rfl, hq⟩ := hv
  obtain ⟨q', n', heq, hq'⟩ := hw
  cases heq
  rw [hq] at hq'
  cases hq'
  rfl

/-- Pieces with commas between them. -/
def separated (tss : List (List Token)) : List Token := List.intercalate [.mark ','] tss

/-- A member of a table as it is written. -/
@[ext]
structure WrittenMember where
  literal : Text
  key : WideText
  value : Data
  tokens : List Token

namespace WrittenMember

def entry (m : WrittenMember) : WideText × Data := (m.key, m.value)

def written (m : WrittenMember) : List Token := .string m.literal :: .mark ':' :: m.tokens

end WrittenMember

/-- The tokens of a value, with all the members that each table has, in order. The words for numbers
that are not finite count as values, as they do to the reader. -/
inductive Denotes : List Token → Data → Prop where
  | word {w : Text} {v : Data} (h : (w, .ok v) ∈ words false) : Denotes [.word w] v
  | numeral {n : Numeral} (h : n.WellFormed) : Denotes [.word n.text] n.data
  | text {s : Text} {v : WideText} (h : Literal s v) : Denotes [.string s] (.text v)
  | list (items : List (List Token × Data)) (h : ∀ i ∈ items, Denotes i.1 i.2) :
    Denotes (.mark '[' :: (separated (items.map Prod.fst) ++ [.mark ']']))
      (.list (items.map Prod.snd))
  | table (ms : List WrittenMember) (hkeys : ∀ m ∈ ms, Literal m.literal m.key)
    (h : ∀ m ∈ ms, Denotes m.tokens m.value) :
    Denotes (.mark '\x7b' :: (separated (ms.map WrittenMember.written) ++ [.mark '\x7d']))
      (.table (ms.map WrittenMember.entry))

theorem Denotes.digit {c : Char} (h : Text.isAsciiDigit c) :
    Denotes [.word [c]] (.int (Text.numberOf 10 [c])) := by
  have hdigit : [c].all Text.isAsciiDigit = true := by simpa using h
  exact Denotes.numeral (n := ⟨false, [c], [], none⟩) ⟨by simp, hdigit, by simp, rfl, by simp⟩

/-- A list whose items are written each in its own way. -/
theorem Denotes.list_of {vs : List Data} (written : Data → List Token)
    (h : ∀ v ∈ vs, Denotes (written v) v) :
    Denotes (.mark '[' :: (separated (vs.map written) ++ [.mark ']'])) (.list vs) := by
  have hitems := Denotes.list (vs.map fun v => (written v, v)) (List.forall_mem_map.2 h)
  simpa [List.map_map, Function.comp_def] using hitems

theorem Denotes.table_of {es : Entries} (literal : WideText → Text) (written : Data → List Token)
    (hkeys : ∀ e ∈ es, Literal (literal e.1) e.1) (h : ∀ e ∈ es, Denotes (written e.2) e.2) :
    Denotes (.mark '\x7b' ::
        (separated (es.map fun e => .string (literal e.1) :: .mark ':' :: written e.2) ++
          [.mark '\x7d'])) (.table es) := by
  have hmembers := Denotes.table (es.map fun e => ⟨literal e.1, e.1, e.2, written e.2⟩)
    (List.forall_mem_map.2 hkeys) (List.forall_mem_map.2 h)
  simpa [List.map_map, Function.comp_def, WrittenMember.entry, WrittenMember.written] using hmembers

theorem separated_cons (ts : List Token) (tss : List (List Token)) :
    separated (ts :: tss) = ts ++ tss.flatMap (.mark ',' :: ·) := by
  induction tss generalizing ts with
  | nil => simp [separated]
  | cons us tss ih =>
    rw [separated, List.intercalate_cons_cons, ← separated, ih, List.flatMap_cons]
    simp

section

variable {α : Type} {written : α → List Token} {closing : Char}

/-- Pieces that can be told from what stands behind them can be told apart when they stand in a row. -/
theorem flatMap_comma_inj (hcomma : closing ≠ ',') {as bs : List α} {r r' : List Token}
    (hinj : ∀ a ∈ as, ∀ b ∈ bs, ∀ {x y}, written a ++ x = written b ++ y → a = b)
    (h : as.flatMap (fun a => .mark ',' :: written a) ++ .mark closing :: r =
      bs.flatMap (fun b => .mark ',' :: written b) ++ .mark closing :: r') : as = bs ∧ r = r' := by
  induction as generalizing bs with
  | nil =>
    cases bs with
    | nil => exact ⟨rfl, by simpa using h⟩
    | cons b bs => simp [hcomma] at h
  | cons a as ih =>
    cases bs with
    | nil => simp [hcomma.symm] at h
    | cons b bs =>
      simp only [List.flatMap_cons, List.cons_append, List.append_assoc, List.cons.injEq,
        true_and] at h
      obtain rfl := hinj a (by simp) b (by simp) h
      obtain ⟨rfl, hr⟩ := ih
        (fun a ha b hb => hinj a (List.mem_cons_of_mem _ ha) b (List.mem_cons_of_mem _ hb))
        (List.append_cancel_left h)
      exact ⟨rfl, hr⟩

theorem separated_inj (hcomma : closing ≠ ',') {as bs : List α} {r r' : List Token}
    (hhead : ∀ a, a ∈ as ∨ a ∈ bs → ∃ t ts, written a = t :: ts ∧ t ≠ .mark closing)
    (hinj : ∀ a ∈ as, ∀ b ∈ bs, ∀ {x y}, written a ++ x = written b ++ y → a = b)
    (h : separated (as.map written) ++ .mark closing :: r =
      separated (bs.map written) ++ .mark closing :: r') : as = bs ∧ r = r' := by
  cases as with
  | nil =>
    cases bs with
    | nil => exact ⟨rfl, by simpa [separated] using h⟩
    | cons b bs =>
      obtain ⟨t, ts, hb, ht⟩ := hhead b (by simp)
      rw [List.map_cons, separated_cons, hb] at h
      exact absurd (List.cons.inj h).1.symm ht
  | cons a as =>
    cases bs with
    | nil =>
      obtain ⟨t, ts, ha, ht⟩ := hhead a (by simp)
      rw [List.map_cons, separated_cons, ha] at h
      exact absurd (List.cons.inj h).1 ht
    | cons b bs =>
      rw [List.map_cons, List.map_cons, separated_cons, separated_cons, List.append_assoc,
        List.append_assoc, List.flatMap_map, List.flatMap_map] at h
      obtain rfl := hinj a (by simp) b (by simp) h
      obtain ⟨rfl, hr⟩ := flatMap_comma_inj hcomma
        (fun a ha b hb => hinj a (List.mem_cons_of_mem _ ha) b (List.mem_cons_of_mem _ hb))
        (List.append_cancel_left h)
      exact ⟨rfl, hr⟩

end

/-! ## No tokens denote two values -/

theorem Numeral.text_inj {n m : Numeral} (hn : n.WellFormed) (hm : m.WellFormed)
    (h : n.text = m.text) : n = m := by
  have hstops : Stops [] := by simp [Stops]
  have hread := Numeral.read?_text hn hstops
  rw [h, Numeral.read?_text hm hstops] at hread
  exact (Option.some.inj hread).symm

/-- A numeral is no word that stands for a value. -/
theorem Numeral.text_not_mem_words {n : Numeral} (hn : n.WellFormed) {v : Except Failure Data} :
    (n.text, v) ∉ words false := by
  intro hmem
  have hnone := List.find?_eq_none.1 (find?_words_text false hn []) _ hmem
  rw [List.append_nil] at hnone
  exact hnone (Text.startsWith_iff.2 (List.prefix_refl _))

theorem word_unique {w : Text} {x y : Except Failure Data} (hx : (w, x) ∈ words false)
    (hy : (w, y) ∈ words false) : x = y := by
  have hnames : ((words false).map Prod.fst).Nodup := by decide
  exact congrArg Prod.snd (List.inj_on_of_nodup_map hnames hx hy rfl)

/-- No value starts with what ends a list. -/
theorem Denotes.exists_head {ts : List Token} {v : Data} (h : Denotes ts v) :
    ∃ t us, ts = t :: us ∧ t ≠ .mark ']' := by
  cases h <;> exact ⟨_, _, rfl, by simp⟩

/-- A value can be told from what stands behind it. -/
theorem Denotes.append_inj {ts us : List Token} {v w : Data} (hv : Denotes ts v) (hw : Denotes us w)
    {x y : List Token} (h : ts ++ x = us ++ y) : ts = us ∧ v = w := by
  induction hv generalizing us w x y with
  | @word s v hs =>
    cases hw with
    | word hs' =>
      cases h
      cases word_unique hs hs'
      exact ⟨rfl, rfl⟩
    | numeral hn =>
      cases h
      exact absurd hs (Numeral.text_not_mem_words hn)
    | _ => cases h
  | @numeral n hn =>
    cases hw with
    | word hs =>
      obtain ⟨hword, -⟩ := List.cons.inj h
      rw [← Token.word.inj hword] at hs
      exact absurd hs (Numeral.text_not_mem_words hn)
    | @numeral m hm =>
      obtain ⟨hword, -⟩ := List.cons.inj h
      obtain rfl := Numeral.text_inj hn hm (Token.word.inj hword)
      exact ⟨rfl, rfl⟩
    | _ => cases h
  | text hs =>
    cases hw with
    | text hs' =>
      cases h
      rw [hs.unique hs']
      exact ⟨rfl, rfl⟩
    | _ => cases h
  | list items hitems ih =>
    cases hw with
    | list items' hitems' =>
      simp only [List.cons_append, List.append_assoc, List.cons.injEq, true_and] at h
      have hhead : ∀ i, i ∈ items ∨ i ∈ items' → ∃ t ts, i.1 = t :: ts ∧ t ≠ .mark ']' :=
        fun i hi => (hi.elim (hitems i) (hitems' i)).exists_head
      obtain ⟨rfl, -⟩ := separated_inj (by decide) hhead
        (fun i hi i' hi' _ _ h => Prod.ext_iff.2 (ih i hi (hitems' i' hi') h)) h
      exact ⟨rfl, rfl⟩
    | _ => cases h
  | table ms hkeys hms ih =>
    cases hw with
    | table ms' hkeys' hms' =>
      simp only [List.cons_append, List.append_assoc, List.cons.injEq, true_and] at h
      have hinj : ∀ m ∈ ms, ∀ m' ∈ ms', ∀ {x y}, m.written ++ x = m'.written ++ y → m = m' := by
        intro m hm m' hm' x y h
        obtain ⟨hliteral, h⟩ := List.cons.inj h
        obtain ⟨htokens, hvalue⟩ := ih m hm (hms' m' hm') (List.cons.inj h).2
        have hliteral := Token.string.inj hliteral
        have hkey := (hliteral ▸ hkeys m hm).unique (hkeys' m' hm')
        exact WrittenMember.ext hliteral hkey hvalue htokens
      obtain ⟨rfl, -⟩ := separated_inj (by decide)
        (fun m _ => ⟨_, _, rfl, by simp⟩) hinj h
      exact ⟨rfl, rfl⟩
    | _ => cases h

theorem Denotes.unique {ts : List Token} {v w : Data} (hv : Denotes ts v) (hw : Denotes ts w) :
    v = w :=
  (hv.append_inj hw (x := []) (y := []) rfl).2

end Json

end ConfigCare
