import ConfigCare.Proofs.Rounding

/-! The shortest decimal of a binary number reads back as that number: `ofDecimal_shortest`. Among
decimals with 17 digits one of the two around the number always lies in its neighbourhood, since
they are closer to each other than the neighbourhood is wide; so the search never comes back empty,
and what it finds is rounded to the number. -/

namespace ConfigCare.Binary64

theorem two_pow_lt_ten_pow : (2 : ℚ) ^ 1077 < 10 ^ 400 :=
  calc (2 : ℚ) ^ 1077 ≤ 2 ^ (3 * 400) := pow_le_pow_right₀ (by norm_num) (by norm_num)
    _ = 8 ^ 400 := by rw [pow_mul]; norm_num
    _ < 10 ^ 400 := pow_lt_pow_left₀ (by norm_num) (by norm_num) (by norm_num)

/-! ## Decimals that read back -/

section

variable {d : Nat} {k e : Int}

theorem scale_back (x : ℚ) (e : Int) : x * 2 ^ (2 - e) * 2 ^ (e - 2) = x := by
  rw [mul_assoc, ← zpow_add₀ two_ne_zero]; simp

/-- A decimal that some number is as large as has no large exponent. -/
theorem exponent_le (hd : 0 < d) (he : e ≤ 971) (hx : (d : ℚ) * 10 ^ k * 2 ^ (2 - e) ≤ 2 ^ 55) :
    k ≤ 400 := by
  by_contra hk
  have hd₁ : (1 : ℚ) ≤ d := by exact_mod_cast hd
  have hle : (10 : ℚ) ^ (400 : Int) ≤ 2 ^ 55 * 2 ^ (969 : Int) := by
    calc (10 : ℚ) ^ (400 : Int) ≤ 10 ^ k := zpow_le_zpow_right₀ (by norm_num) (by omega)
      _ ≤ d * 10 ^ k := le_mul_of_one_le_left (by positivity) hd₁
      _ = d * 10 ^ k * 2 ^ (2 - e) * 2 ^ (e - 2) := (scale_back _ e).symm
      _ ≤ 2 ^ 55 * 2 ^ (969 : Int) := by
        gcongr
        · norm_num
        · omega
  have hpow : (2 : ℚ) ^ 55 * 2 ^ (969 : Int) ≤ 2 ^ 1077 := by
    rw [show (969 : Int) = (969 : ℕ) from rfl, zpow_natCast, ← pow_add]
    exact pow_le_pow_right₀ (by norm_num) (by norm_num)
  have hten : (10 : ℚ) ^ (400 : Int) = 10 ^ 400 := zpow_natCast 10 400
  rw [hten] at hle
  exact not_le.2 two_pow_lt_ten_pow (hle.trans hpow)

/-- Nor has it a small one. -/
theorem le_exponent (he : -1074 ≤ e) (hx : 1 ≤ (d : ℚ) * 10 ^ k * 2 ^ (2 - e)) :
    -(400 + (d.log2 : Int)) ≤ k := by
  by_contra hk
  have hlog : (d : ℚ) < 2 ^ (d.log2 + 1) := by exact_mod_cast Nat.lt_log2_self
  have hle : (1 : ℚ) * 2 ^ (-1076 : Int) ≤ 2 * 10 ^ (-400 : Int) := by
    calc (1 : ℚ) * 2 ^ (-1076 : Int) ≤ d * 10 ^ k * 2 ^ (2 - e) * 2 ^ (e - 2) := by
          gcongr
          · norm_num
          · omega
      _ = d * 10 ^ k := scale_back _ e
      _ ≤ 2 ^ (d.log2 + 1) * 10 ^ (-400 + -(d.log2 : Int)) := by
          gcongr
          · norm_num
          · omega
      _ = 2 * 10 ^ (-400 : Int) * (2 ^ d.log2 * (10 ^ d.log2)⁻¹) := by
          rw [zpow_add₀ (by norm_num), zpow_neg _ (d.log2 : Int), zpow_natCast]; ring
      _ ≤ 2 * 10 ^ (-400 : Int) * 1 := by
          gcongr
          rw [← div_eq_mul_inv, div_le_one (by positivity)]
          gcongr
          norm_num
      _ = 2 * 10 ^ (-400 : Int) := mul_one _
  have htwo : (2 : ℚ) ^ (-1076 : Int) = (2 ^ 1076)⁻¹ := by
    rw [zpow_neg]; exact congrArg _ (zpow_natCast 2 1076)
  have hten : (10 : ℚ) ^ (-400 : Int) = (10 ^ 400)⁻¹ := by
    rw [zpow_neg]; exact congrArg _ (zpow_natCast 10 400)
  rw [htwo, hten, one_mul, ← div_eq_mul_inv, inv_eq_one_div,
    div_le_div_iff₀ (by positivity) (by positivity), one_mul, ← pow_succ'] at hle
  exact not_le.2 two_pow_lt_ten_pow hle

end

/-- A decimal in the neighbourhood of a number is read as that number. -/
theorem ofDecimal_of_holds (negative : Bool) {m : Nat} {e : Int} (h : Canonical m e) (hm : 0 < m)
    {d : Nat} {k : Int} (hx : (neighbourhood m e).Holds ((d : ℚ) * 10 ^ k * 2 ^ (2 - e))) :
    ofDecimal negative d k = .finite negative m e := by
  obtain ⟨hlow, hhigh⟩ := hx.bounds
  rw [neighbourhood_low e hm] at hlow
  rw [neighbourhood_high] at hhigh
  have hm₁ : (1 : ℚ) ≤ m := by exact_mod_cast hm
  have hm₂ : (m : ℚ) + 1 ≤ 2 ^ 53 := by exact_mod_cast h.mantissa
  have hone : 1 ≤ (d : ℚ) * 10 ^ k * 2 ^ (2 - e) := by split_ifs at hlow <;> linarith
  have hd : 0 < d := by
    rcases d.eq_zero_or_pos with rfl | hd
    · norm_num at hone
    · exact hd
  have hupper := exponent_le hd h.greatest (by linarith)
  have hlower := le_exponent h.least hone
  unfold ofDecimal
  rw [if_neg hd.ne', if_neg (by omega), if_neg (by omega)]
  split
  · next hk =>
    obtain ⟨n, rfl⟩ := Int.eq_ofNat_of_zero_le hk
    refine ofFraction_of_holds negative h hm one_pos ?_
    simpa using hx
  · next hk =>
    obtain ⟨n, rfl⟩ : ∃ n : ℕ, k = -n := ⟨(-k).toNat, by omega⟩
    refine ofFraction_of_holds negative h hm (Nat.pow_pos (by decide)) ?_
    simpa [div_eq_mul_inv] using hx

/-! ## The search for digits -/

/-- A quarter of a unit, `unit`, in units of a power of ten. -/
def quarterIn (unit : Nat × Nat) (k : Int) : Nat × Nat :=
  if 0 ≤ k then (unit.1, unit.2 * Nat.pow 10 k.toNat) else (unit.1 * Nat.pow 10 (-k).toNat, unit.2)

theorem quarterIn_ratio {unit : Nat × Nat} {x : ℚ} (hx : 0 < x) (hden : 0 < unit.2)
    (h : (unit.1 : ℚ) / unit.2 = x) (k : Int) :
    0 < (quarterIn unit k).1 ∧ 0 < (quarterIn unit k).2 ∧
      ((quarterIn unit k).2 : ℚ) / (quarterIn unit k).1 = 10 ^ k / x := by
  obtain ⟨a, b⟩ := unit
  have hb : (0 : ℚ) < b := by exact_mod_cast hden
  have ha : 0 < a := by
    rcases a.eq_zero_or_pos with rfl | ha
    · simp at h
      exact absurd h hx.ne
    · exact ha
  have ha' : (0 : ℚ) < a := by exact_mod_cast ha
  subst h
  unfold quarterIn
  split
  · next hk =>
    obtain ⟨n, rfl⟩ := Int.eq_ofNat_of_zero_le hk
    refine ⟨ha, Nat.mul_pos hden (Nat.pow_pos (by decide)), ?_⟩
    simp only [Int.toNat_natCast, Nat.pow_eq, Nat.cast_mul, Nat.cast_pow, Nat.cast_ofNat, zpow_natCast]
    field_simp
  · next hk =>
    obtain ⟨n, rfl⟩ : ∃ n : ℕ, k = -n := ⟨(-k).toNat, by omega⟩
    refine ⟨Nat.mul_pos ha (Nat.pow_pos (by decide)), hden, ?_⟩
    simp only [neg_neg, Int.toNat_natCast, Nat.pow_eq, Nat.cast_mul, Nat.cast_pow, Nat.cast_ofNat,
      zpow_neg, zpow_natCast]
    field_simp

/-- Whether a decimal lies in a neighbourhood, when `q.1 / q.2` is a quarter of a unit. -/
def Neighbourhood.contains (h : Neighbourhood) (q : Nat × Nat) (d : Nat) : Bool :=
  if h.closed then h.low * q.1 ≤ d * q.2 && d * q.2 ≤ h.high * q.1
  else h.low * q.1 < d * q.2 && d * q.2 < h.high * q.1

theorem Neighbourhood.contains_iff (h : Neighbourhood) {q : Nat × Nat} (hq : 0 < q.1) (d : Nat) :
    h.contains q d = true ↔ h.Holds (d * ((q.2 : ℚ) / q.1)) := by
  have hq' : (0 : ℚ) < q.1 := by exact_mod_cast hq
  unfold contains Holds
  split
  · rw [Bool.and_eq_true, decide_eq_true_eq, decide_eq_true_eq, ← mul_div_assoc, le_div_iff₀ hq',
      div_le_iff₀ hq']
    exact_mod_cast Iff.rfl
  · rw [Bool.and_eq_true, decide_eq_true_eq, decide_eq_true_eq, ← mul_div_assoc, lt_div_iff₀ hq',
      div_lt_iff₀ hq']
    exact_mod_cast Iff.rfl

/-- The search looks at the two decimals around the value. -/
theorem decimalWith_match (h : Neighbourhood) (unit : Nat × Nat) (whole : Int) (count : Nat)
    {q : Nat × Nat} {d : Nat} (hq : q = quarterIn unit (whole - count))
    (hd : d = h.value * q.1 / q.2) :
    decimalWith h unit whole count =
      match h.contains q d, h.contains q (d + 1) with
      | false, false => none
      | true, false => some (d, whole - count)
      | false, true => some (d + 1, whole - count)
      | true, true =>
        let below := h.value * q.1 - d * q.2
        some (if 2 * below < q.2 || (2 * below = q.2 && d % 2 = 0) then d else d + 1,
          whole - count) := by
  subst hq hd
  rfl

/-- Of the two decimals around the value the search takes one that lies in the neighbourhood. -/
theorem decimalWith_eq (h : Neighbourhood) (unit : Nat × Nat) (whole : Int) (count : Nat) :
    let q := quarterIn unit (whole - count)
    let d := h.value * q.1 / q.2
    (∀ r, decimalWith h unit whole count = some r →
      (r = (d, whole - count) ∧ h.contains q d) ∨ (r = (d + 1, whole - count) ∧ h.contains q (d + 1))) ∧
    (decimalWith h unit whole count = none → h.contains q d = false ∧ h.contains q (d + 1) = false) := by
  intro q d
  rw [decimalWith_match h unit whole count (q := q) (d := d) rfl rfl]
  cases hd : h.contains q d <;> cases hd' : h.contains q (d + 1)
  · simp
  · simp
  · simp
  · refine ⟨fun r hr => ?_, by simp⟩
    simp only [Option.some.injEq] at hr
    subst hr
    split
    · exact .inl ⟨rfl, rfl⟩
    · exact .inr ⟨rfl, rfl⟩

/-! ## The number of digits before the point -/

/-- Whether a fraction is at least a power of ten. -/
def reaches (num den : Nat) (d : Int) : Bool :=
  if 0 ≤ d then Nat.pow 10 d.toNat * den ≤ num else den ≤ num * Nat.pow 10 (-d).toNat

theorem reaches_iff {num den : Nat} (hden : 0 < den) (d : Int) :
    reaches num den d = true ↔ (10 : ℚ) ^ d ≤ num / den := by
  have hden' : (0 : ℚ) < den := by exact_mod_cast hden
  unfold reaches
  rw [le_div_iff₀ hden']
  split
  · next hd =>
    obtain ⟨n, rfl⟩ := Int.eq_ofNat_of_zero_le hd
    simp only [Int.toNat_natCast, Nat.pow_eq, decide_eq_true_eq, zpow_natCast]
    exact_mod_cast Iff.rfl
  · next hd =>
    obtain ⟨n, rfl⟩ : ∃ n : ℕ, d = -n := ⟨(-d).toNat, by omega⟩
    simp only [neg_neg, Int.toNat_natCast, Nat.pow_eq, decide_eq_true_eq, zpow_neg, zpow_natCast]
    rw [inv_mul_le_iff₀ (by positivity), mul_comm]
    exact_mod_cast Iff.rfl

/-- The estimate of a decimal exponent from a binary one is too high by less than two. -/
theorem ten_pow_estimate {b : Int} (hlow : -1600 ≤ b) (hhigh : b ≤ 1600) :
    (10 : ℚ) ^ (b * 30103 / 100000 - 2) ≤ 2 ^ (b - 1) := by
  obtain ⟨g, hg⟩ : ∃ g, g = b * 30103 / 100000 - 2 := ⟨_, rfl⟩
  rw [← hg]
  rcases le_or_gt 0 g with hpos | hneg
  · -- three binary digits and a third are a decimal one
    obtain ⟨n, rfl⟩ := Int.eq_ofNat_of_zero_le hpos
    obtain ⟨k, hk⟩ : ∃ k : ℕ, b - 1 = k := ⟨(b - 1).toNat, by omega⟩
    rw [hk, zpow_natCast, zpow_natCast, ← pow_le_pow_iff_left₀ (n := 3) (by positivity) (by positivity)
      (by norm_num)]
    calc ((10 : ℚ) ^ n) ^ 3 = (10 ^ 3) ^ n := by rw [← pow_mul, ← pow_mul, Nat.mul_comm]
      _ ≤ (2 ^ 10) ^ n := pow_le_pow_left₀ (by norm_num) (by norm_num) n
      _ = 2 ^ (10 * n) := by rw [← pow_mul]
      _ ≤ 2 ^ (k * 3) := pow_le_pow_right₀ (by norm_num) (by omega)
      _ = (2 ^ k) ^ 3 := by rw [pow_mul]
  · obtain ⟨p, rfl⟩ : ∃ p : ℕ, g = -p := ⟨(-g).toNat, by omega⟩
    rcases le_or_gt 1 b with hone | hzero
    · calc (10 : ℚ) ^ (-p : Int) ≤ 10 ^ (0 : Int) := zpow_le_zpow_right₀ (by norm_num) (by omega)
        _ = 2 ^ (0 : Int) := by rw [zpow_zero, zpow_zero]
        _ ≤ 2 ^ (b - 1) := zpow_le_zpow_right₀ (by norm_num) (by omega)
    · obtain ⟨k, hk⟩ : ∃ k : ℕ, b - 1 = -k := ⟨(1 - b).toNat, by omega⟩
      rw [hk, zpow_neg, zpow_neg, zpow_natCast, zpow_natCast,
        inv_le_inv₀ (by positivity) (by positivity),
        ← pow_le_pow_iff_left₀ (n := 93) (by positivity) (by positivity) (by norm_num)]
      calc ((2 : ℚ) ^ k) ^ 93 = (2 ^ 93) ^ k := by rw [← pow_mul, ← pow_mul, Nat.mul_comm]
        _ ≤ (10 ^ 28) ^ k := pow_le_pow_left₀ (by norm_num) (by norm_num) k
        _ = 10 ^ (28 * k) := by rw [← pow_mul]
        _ ≤ 10 ^ (p * 93) := pow_le_pow_right₀ (by norm_num) (by omega)
        _ = (10 ^ p) ^ 93 := by rw [pow_mul]

theorem ten_pow_wholeDigits {num den : Nat} (hnum : 0 < num) (hden : 0 < den)
    (hlow : (2 : ℚ) ^ (-1500 : Int) ≤ num / den) (hhigh : (num : ℚ) / den ≤ 2 ^ (1500 : Int)) :
    (10 : ℚ) ^ (wholeDigits num den - 1) ≤ num / den := by
  obtain ⟨hlog, hlog'⟩ := log2_bounds hnum hden
  have hb₁ : -1600 ≤ (num.log2 : Int) - den.log2 := by
    have := (zpow_lt_zpow_iff_right₀ (by norm_num : (1 : ℚ) < 2)).1 (hlow.trans_lt hlog')
    omega
  have hb₂ : (num.log2 : Int) - den.log2 ≤ 1600 := by
    have := (zpow_lt_zpow_iff_right₀ (by norm_num : (1 : ℚ) < 2)).1 (hlog.trans_le hhigh)
    omega
  have hestimate := ten_pow_estimate hb₁ hb₂
  have heq : wholeDigits num den =
      let guess : Int := (((num.log2 : Int) - den.log2) * 30103) / 100000
      if reaches num den (guess + 1) then guess + 2
      else if reaches num den guess then guess + 1
      else if reaches num den (guess - 1) then guess
      else guess - 1 := rfl
  rw [heq]
  simp only
  generalize ((num.log2 : Int) - den.log2) * 30103 / 100000 = guess at hestimate ⊢
  split_ifs with h₁ h₂ h₃
  · rw [show guess + 2 - 1 = guess + 1 by ring]
    exact (reaches_iff hden _).1 h₁
  · rw [add_sub_cancel_right]
    exact (reaches_iff hden _).1 h₂
  · exact (reaches_iff hden _).1 h₃
  · rw [show guess - 1 - 1 = guess - 2 by ring]
    exact hestimate.trans hlog.le

/-! ## The shortest decimal -/

/-- Decimals less than the width of a neighbourhood apart cannot both miss it. -/
theorem Neighbourhood.width_le {h : Neighbourhood} {x g : ℚ} {d : Nat} (hlow : (h.low : ℚ) < x)
    (hhigh : x < h.high) (hd : d * g ≤ x) (hd' : x < (d + 1) * g) (hbelow : ¬ h.Holds (d * g))
    (habove : ¬ h.Holds ((d + 1) * g)) : (h.high : ℚ) - h.low ≤ g := by
  by_cases hclosed : h.closed = true
  · rw [Holds, if_pos hclosed] at hbelow habove
    have h₁ : d * g < h.low := by
      by_contra hge
      exact hbelow ⟨not_lt.1 hge, hd.trans hhigh.le⟩
    have h₂ : h.high < (d + 1) * g := by
      by_contra hle
      exact habove ⟨(hlow.trans hd').le, not_lt.1 hle⟩
    linarith
  · rw [Holds, if_neg hclosed] at hbelow habove
    have h₁ : d * g ≤ h.low := by
      by_contra hgt
      exact hbelow ⟨not_le.1 hgt, hd.trans_lt hhigh⟩
    have h₂ : h.high ≤ (d + 1) * g := by
      by_contra hlt
      exact habove ⟨hlow.trans hd', not_le.1 hlt⟩
    linarith

/-- A number lies between the decimals that the search tries for it. -/
theorem value_between {q : Nat × Nat} (ha : 0 < q.1) (hb : 0 < q.2) (v : Nat) :
    ((v * q.1 / q.2 : ℕ) : ℚ) * (q.2 / q.1) ≤ v ∧
      (v : ℚ) < ((v * q.1 / q.2 : ℕ) + 1) * (q.2 / q.1) := by
  have ha' : (0 : ℚ) < q.1 := by exact_mod_cast ha
  rw [← mul_div_assoc, ← mul_div_assoc, div_le_iff₀ ha', lt_div_iff₀ ha']
  have hfloor : v * q.1 / q.2 * q.2 ≤ v * q.1 := Nat.div_mul_le_self _ _
  have hceil : v * q.1 < (v * q.1 / q.2 + 1) * q.2 :=
    (Nat.div_lt_iff_lt_mul hb).1 (Nat.lt_succ_self _)
  exact ⟨by exact_mod_cast hfloor, by exact_mod_cast hceil⟩

section

variable {m : Nat} {e : Int} {unit : Nat × Nat} (hunit : 0 < unit.2)
  (hratio : (unit.1 : ℚ) / unit.2 = 2 ^ (e - 2))

include hunit hratio

theorem holds_of_decimalWith {whole : Int} {i : Nat} {r : Nat × Int}
    (hr : decimalWith (neighbourhood m e) unit whole i = some r) :
    (neighbourhood m e).Holds ((r.1 : ℚ) * 10 ^ r.2 * 2 ^ (2 - e)) := by
  obtain ⟨ha, -, hquarter⟩ := quarterIn_ratio (by positivity) hunit hratio (whole - i)
  have hgrid : (10 : ℚ) ^ (whole - i) / 2 ^ (e - 2) = 10 ^ (whole - i) * 2 ^ (2 - e) := by
    rw [div_eq_mul_inv, ← zpow_neg, neg_sub]
  rw [hgrid] at hquarter
  obtain ⟨rfl, hcontains⟩ | ⟨rfl, hcontains⟩ := (decimalWith_eq _ unit whole i).1 r hr
  all_goals
    rw [Neighbourhood.contains_iff _ ha, hquarter, ← mul_assoc] at hcontains
    exact hcontains

theorem ten_pow_whole (h : Canonical m e) (hm : 0 < m) :
    (10 : ℚ) ^ (wholeDigits (4 * m * unit.1) unit.2 - 1) ≤ 4 * m * 2 ^ (e - 2) := by
  have hm₁ : (1 : ℚ) ≤ m := by exact_mod_cast hm
  have hm₂ : (m : ℚ) + 1 ≤ 2 ^ 53 := by exact_mod_cast h.mantissa
  have hleast := h.least
  have hgreatest := h.greatest
  have hpos : 0 < unit.1 := by
    rcases unit.1.eq_zero_or_pos with hzero | hpos
    · rw [hzero] at hratio
      have : (0 : ℚ) < 2 ^ (e - 2) := by positivity
      simp at hratio
      linarith
    · exact hpos
  have hvalue : ((4 * m * unit.1 : ℕ) : ℚ) / unit.2 = 4 * m * 2 ^ (e - 2) := by
    rw [← hratio]; push_cast; ring
  rw [← hvalue]
  refine ten_pow_wholeDigits (Nat.mul_pos (by omega) hpos) hunit ?_ ?_
  · rw [hvalue]
    calc (2 : ℚ) ^ (-1500 : Int) ≤ 1 * 2 ^ (e - 2) := by
          rw [one_mul]; exact zpow_le_zpow_right₀ (by norm_num) (by omega)
      _ ≤ 4 * m * 2 ^ (e - 2) := by gcongr; linarith
  · rw [hvalue]
    calc 4 * (m : ℚ) * 2 ^ (e - 2) ≤ 2 ^ (55 : Int) * 2 ^ (e - 2) := by
          gcongr; norm_num at hm₂ ⊢; linarith
      _ = 2 ^ (55 + (e - 2)) := by rw [← zpow_add₀ two_ne_zero]
      _ ≤ 2 ^ (1500 : Int) := zpow_le_zpow_right₀ (by norm_num) (by omega)

/-- Seventeen digits are enough: decimals of so many digits are closer together than a neighbourhood
is wide. -/
theorem decimalWith_seventeen (h : Canonical m e) (hm : 0 < m) {whole : Int}
    (hten : (10 : ℚ) ^ (whole - 1) ≤ 4 * m * 2 ^ (e - 2)) :
    decimalWith (neighbourhood m e) unit whole 17 ≠ none := by
  intro hnone
  have hm₁ : (1 : ℚ) ≤ m := by exact_mod_cast hm
  have hm₂ : (m : ℚ) + 1 ≤ 2 ^ 53 := by exact_mod_cast h.mantissa
  have hlow := neighbourhood_low e hm
  have hhigh := neighbourhood_high m e
  obtain ⟨ha, hb, hquarter⟩ := quarterIn_ratio (by positivity) hunit hratio (whole - (17 : ℕ))
  obtain ⟨hbelow, habove⟩ := (decimalWith_eq _ unit whole 17).2 hnone
  rw [← Bool.not_eq_true, Neighbourhood.contains_iff _ ha, hquarter] at hbelow habove
  obtain ⟨hfloor, hceil⟩ := value_between ha hb (4 * m)
  rw [hquarter] at hfloor hceil
  push_cast at hfloor hceil
  have hwidth := Neighbourhood.width_le (by rw [hlow]; split_ifs <;> linarith)
    (by rw [hhigh]; linarith) hfloor hceil hbelow (by exact_mod_cast habove)
  have hgap : (10 : ℚ) ^ (whole - (17 : ℕ)) / 2 ^ (e - 2) ≤ 4 * m / 10 ^ 16 := by
    rw [div_le_div_iff₀ (by positivity) (by positivity)]
    calc (10 : ℚ) ^ (whole - (17 : ℕ)) * 10 ^ 16 = 10 ^ (whole - 1) := by
          rw [← zpow_natCast (10 : ℚ) 16, ← zpow_add₀ (by norm_num)]; congr 1; push_cast; ring
      _ ≤ 4 * m * 2 ^ (e - 2) := hten
  rw [hlow, hhigh] at hwidth
  split_ifs at hwidth with hpower
  · rw [hpower.1] at hwidth hgap
    norm_num at hwidth hgap
    linarith
  · have : 4 * (m : ℚ) / 10 ^ 16 < 4 := by
      rw [div_lt_iff₀ (by positivity)]
      linarith
    linarith

end

/-- The digits that are found lie in the neighbourhood of the number. -/
theorem shortest_holds {m : Nat} {e : Int} (h : Canonical m e) (hm : 0 < m) :
    (neighbourhood m e).Holds (((shortest m e).1 : ℚ) * 10 ^ (shortest m e).2 * 2 ^ (2 - e)) := by
  obtain ⟨hunit, hratio⟩ := scaled_ratio 1 one_pos (e - 2)
  rw [Nat.cast_one, div_one, one_mul] at hratio
  have heq : shortest m e = ((List.range 17).findSome? fun i => decimalWith (neighbourhood m e)
      (scaled 1 1 (e - 2)) (wholeDigits (4 * m * (scaled 1 1 (e - 2)).1) (scaled 1 1 (e - 2)).2)
      (i + 1)).getD (0, 0) := rfl
  have hten := ten_pow_whole hunit hratio h hm
  have hsome : ((List.range 17).findSome? fun i => decimalWith (neighbourhood m e)
      (scaled 1 1 (e - 2)) (wholeDigits (4 * m * (scaled 1 1 (e - 2)).1) (scaled 1 1 (e - 2)).2)
      (i + 1)) ≠ none := fun hnone =>
    decimalWith_seventeen hunit hratio h hm hten (List.findSome?_eq_none_iff.1 hnone 16 (by simp))
  obtain ⟨r, hr⟩ := Option.ne_none_iff_exists'.1 hsome
  obtain ⟨i, -, hi⟩ := List.exists_of_findSome?_eq_some hr
  rw [heq, hr]
  exact holds_of_decimalWith hunit hratio hi

theorem shortest_pos {m : Nat} {e : Int} (h : Canonical m e) (hm : 0 < m) :
    0 < (shortest m e).1 := by
  have hm₁ : (1 : ℚ) ≤ m := by exact_mod_cast hm
  have hlow := (shortest_holds h hm).bounds.1
  rw [neighbourhood_low e hm] at hlow
  rcases (shortest m e).1.eq_zero_or_pos with hzero | hpos
  · rw [hzero] at hlow
    simp only [Nat.cast_zero, zero_mul] at hlow
    split_ifs at hlow <;> linarith
  · exact hpos

/-- The digits that are found read back as the number, however the point and the power of ten are
written. -/
theorem ofDecimal_shortest (negative : Bool) {m : Nat} {e : Int} (h : Canonical m e) (hm : 0 < m)
    {d : Nat} {k : Int} (hd : (d : ℚ) * 10 ^ k = (shortest m e).1 * 10 ^ (shortest m e).2) :
    ofDecimal negative d k = .finite negative m e :=
  ofDecimal_of_holds negative h hm (by rw [hd]; exact shortest_holds h hm)

/-! ## Decimals round to numbers in canonical form -/

/-- A finite number has its canonical mantissa and exponent. -/
def IsCanonical : Binary64 → Prop
  | .finite _ m e => Canonical m e
  | .infinite _ => True
  | .notANumber => True

theorem canonical_zero : Canonical 0 (-1074) := ⟨by decide, by decide, by decide, .inr rfl⟩

theorem isCanonical_ofFraction (negative : Bool) (num : Nat) {den : Nat} (hden : 0 < den) :
    (ofFraction negative num den).IsCanonical := by
  obtain h | ⟨m, e, hme, h⟩ := ofFraction_canonical negative num hden
  · rw [h]; trivial
  · rw [h]; exact hme

theorem isCanonical_ofDecimal (negative : Bool) (digits : Nat) (exponent : Int) :
    (ofDecimal negative digits exponent).IsCanonical := by
  unfold ofDecimal
  split_ifs
  · exact canonical_zero
  · trivial
  · exact canonical_zero
  · exact isCanonical_ofFraction negative _ one_pos
  · exact isCanonical_ofFraction negative _ (Nat.pow_pos (by decide))

end ConfigCare.Binary64
