import Mathlib.Tactic
import ConfigCare.Number.Shortest

/-! Rounding to a binary number. Every fraction within half a unit of a number, and a tie if its
mantissa is even, is rounded to that number: `ofFraction_of_holds`. Below a power of two the units
are half as large, so there the neighbourhood reaches down half as far. -/

namespace ConfigCare.Binary64

/-- The mantissa and the exponent of a number that is written in one way only: with 53 binary
digits, or with the least exponent. -/
structure Canonical (m : Nat) (e : Int) : Prop where
  mantissa : m < 2 ^ 53
  least : -1074 ≤ e
  greatest : e ≤ 971
  full : 2 ^ 52 ≤ m ∨ e = -1074

/-! ## Quotients -/

theorem scaled_ratio (num : Nat) {den : Nat} (hden : 0 < den) (e : Int) :
    0 < (scaled num den e).2 ∧
      ((scaled num den e).1 : ℚ) / (scaled num den e).2 = num / den * 2 ^ e := by
  have hd : (den : ℚ) ≠ 0 := by positivity
  unfold scaled
  split
  · next he =>
    obtain ⟨k, rfl⟩ := Int.eq_ofNat_of_zero_le he
    refine ⟨hden, ?_⟩
    simp only [Int.toNat_natCast, Nat.pow_eq, Nat.cast_mul, Nat.cast_pow, Nat.cast_ofNat, zpow_natCast]
    ring
  · next he =>
    obtain ⟨k, rfl⟩ : ∃ k : ℕ, e = -k := ⟨(-e).toNat, by omega⟩
    refine ⟨Nat.mul_pos hden (Nat.pow_pos (by decide)), ?_⟩
    simp only [neg_neg, Int.toNat_natCast, Nat.pow_eq, Nat.cast_mul, Nat.cast_pow, Nat.cast_ofNat,
      zpow_neg, zpow_natCast]
    field_simp

theorem roundDiv_eq {n d m : Nat} (hd : 0 < d) (hlow : 2 * (m * d) ≤ 2 * n + d)
    (hhigh : 2 * n ≤ 2 * (m * d) + d)
    (htie : 2 * (m * d) = 2 * n + d ∨ 2 * n = 2 * (m * d) + d → m % 2 = 0) : roundDiv n d = m := by
  have hn : d * (n / d) + n % d = n := Nat.div_add_mod n d
  have hr : n % d < d := Nat.mod_lt n hd
  unfold roundDiv
  generalize n / d = q at hn ⊢
  generalize n % d = r at hn hr ⊢
  subst hn
  have hle : m ≤ q + 1 := by
    by_contra h
    have : (q + 2) * d ≤ m * d := Nat.mul_le_mul_right d (by omega)
    nlinarith
  have hge : q ≤ m := by
    by_contra h
    have : (m + 1) * d ≤ q * d := Nat.mul_le_mul_right d (by omega)
    nlinarith
  obtain rfl | rfl : m = q ∨ m = q + 1 := by omega
  · have hcomm : d * m = m * d := Nat.mul_comm d m
    simp only
    split_ifs <;> omega
  · have hcomm : (q + 1) * d = d * q + d := by ring
    simp only
    split_ifs <;> omega

/-- The rounding of a fraction is the whole number within a half of it, and the even one of two. -/
theorem roundDiv_of_abs_le {n d m : Nat} (hd : 0 < d) (h : |(n : ℚ) / d - m| ≤ 1 / 2)
    (htie : |(n : ℚ) / d - m| = 1 / 2 → m % 2 = 0) : roundDiv n d = m := by
  have hd' : (0 : ℚ) < d := by exact_mod_cast hd
  have hsub : (n : ℚ) / d - m = (n - m * d) / d := by field_simp
  rw [hsub, abs_div, abs_of_pos hd', div_le_div_iff₀ hd' two_pos] at h
  rw [hsub, abs_div, abs_of_pos hd', div_eq_div_iff hd'.ne' two_ne_zero] at htie
  have hlow : 2 * (m * d) ≤ 2 * n + d := by
    have := (abs_le.1 (show |(n : ℚ) - m * d| ≤ d / 2 by linarith)).1
    have : (2 * (m * d) : ℚ) ≤ 2 * n + d := by linarith
    exact_mod_cast this
  have hhigh : 2 * n ≤ 2 * (m * d) + d := by
    have := (abs_le.1 (show |(n : ℚ) - m * d| ≤ d / 2 by linarith)).2
    have : (2 * n : ℚ) ≤ 2 * (m * d) + d := by linarith
    exact_mod_cast this
  refine roundDiv_eq hd hlow hhigh fun h' => htie ?_
  rcases h' with h' | h'
  · have : (2 * (m * d) : ℚ) = 2 * n + d := by exact_mod_cast h'
    rw [abs_of_nonpos] <;> linarith
  · have : (2 * n : ℚ) = 2 * (m * d) + d := by exact_mod_cast h'
    rw [abs_of_nonneg] <;> linarith

theorem le_roundDiv {n d a : Nat} (hd : 0 < d) (h : a * d ≤ n) : a ≤ roundDiv n d := by
  have hq : a ≤ n / d := (Nat.le_div_iff_mul_le hd).2 h
  unfold roundDiv
  simp only
  split_ifs <;> omega

theorem roundDiv_le {n d b : Nat} (hd : 0 < d) (h : n ≤ b * d) : roundDiv n d ≤ b := by
  have hn : d * (n / d) + n % d = n := Nat.div_add_mod n d
  have hr : n % d < d := Nat.mod_lt n hd
  have hq : n / d ≤ b := Nat.div_le_of_le_mul (by rwa [Nat.mul_comm])
  unfold roundDiv
  rcases hq.lt_or_eq with hlt | heq
  · simp only
    split_ifs <;> omega
  · -- the quotient is the bound, so nothing is left over
    have hzero : n % d = 0 := by
      rw [heq] at hn
      have : d * b = b * d := Nat.mul_comm d b
      omega
    simp [hzero, heq, hd]

/-! ## Fractions -/

theorem log2_bounds {num den : Nat} (hnum : 0 < num) (hden : 0 < den) :
    (2 : ℚ) ^ ((num.log2 : Int) - den.log2 - 1) < num / den ∧
      (num : ℚ) / den < 2 ^ ((num.log2 : Int) - den.log2 + 1) := by
  have hd : (0 : ℚ) < den := by exact_mod_cast hden
  have hn₁ : (2 : ℚ) ^ (num.log2 : Int) ≤ num := by
    rw [zpow_natCast]; exact_mod_cast Nat.log2_self_le hnum.ne'
  have hn₂ : (num : ℚ) < 2 ^ ((num.log2 : Int) + 1) := by
    have : (num : ℚ) < 2 ^ (num.log2 + 1) := by exact_mod_cast Nat.lt_log2_self
    exact_mod_cast this
  have hd₁ : (2 : ℚ) ^ (den.log2 : Int) ≤ den := by
    rw [zpow_natCast]; exact_mod_cast Nat.log2_self_le hden.ne'
  have hd₂ : (den : ℚ) < 2 ^ ((den.log2 : Int) + 1) := by
    have : (den : ℚ) < 2 ^ (den.log2 + 1) := by exact_mod_cast Nat.lt_log2_self
    exact_mod_cast this
  constructor
  · rw [lt_div_iff₀ hd]
    calc (2 : ℚ) ^ ((num.log2 : Int) - den.log2 - 1) * den
        < 2 ^ ((num.log2 : Int) - den.log2 - 1) * 2 ^ ((den.log2 : Int) + 1) := by gcongr
      _ = 2 ^ (num.log2 : Int) := by rw [← zpow_add₀ two_ne_zero]; congr 1; ring
      _ ≤ num := hn₁
  · rw [div_lt_iff₀ hd]
    calc (num : ℚ) < 2 ^ ((num.log2 : Int) + 1) := hn₂
      _ = 2 ^ ((num.log2 : Int) - den.log2 + 1) * 2 ^ (den.log2 : Int) := by
        rw [← zpow_add₀ two_ne_zero]; congr 1; ring
      _ ≤ 2 ^ ((num.log2 : Int) - den.log2 + 1) * den := by gcongr

/-- A fraction is cut off 52 places below its first binary digit, or at the least exponent. -/
theorem ofFraction_eq (negative : Bool) {num den : Nat} (hnum : 0 < num) (hden : 0 < den) :
    ∃ top : Int, (2 : ℚ) ^ top ≤ num / den ∧ (num : ℚ) / den < 2 ^ (top + 1) ∧
      let e := max (top - 52) (-1074)
      let m := roundDiv (scaled num den (-e)).1 (scaled num den (-e)).2
      ofFraction negative num den =
        if m = 2 ^ 53 then
          (if e + 1 > 971 then .infinite negative else .finite negative (2 ^ 52) (e + 1))
        else if e > 971 then .infinite negative else .finite negative m e := by
  obtain ⟨hlow, hhigh⟩ := log2_bounds hnum hden
  obtain ⟨hd, hratio⟩ := scaled_ratio num hden (-((num.log2 : Int) - den.log2))
  have hd' : (0 : ℚ) < (scaled num den (-((num.log2 : Int) - den.log2))).2 := by exact_mod_cast hd
  have hfit : (scaled num den (-((num.log2 : Int) - den.log2))).1 <
      (scaled num den (-((num.log2 : Int) - den.log2))).2 ↔
        (num : ℚ) / den < 2 ^ ((num.log2 : Int) - den.log2) := by
    rw [← @Nat.cast_lt ℚ, ← div_lt_one hd', hratio, zpow_neg, ← div_eq_mul_inv,
      div_lt_one (by positivity)]
  refine ⟨if (num : ℚ) / den < 2 ^ ((num.log2 : Int) - den.log2) then
    (num.log2 : Int) - den.log2 - 1 else (num.log2 : Int) - den.log2, ?_, ?_, ?_⟩
  · split
    · exact hlow.le
    · next h => exact not_lt.1 h
  · split
    · next h => simpa using h
    · exact hhigh
  · unfold ofFraction
    rw [if_neg hnum.ne']
    simp only [hfit, Nat.pow_eq]
    split_ifs <;> rfl

theorem le_of_ratio_le {n d a : Nat} (hd : 0 < d) (h : (a : ℚ) ≤ n / d) : a * d ≤ n := by
  have hd' : (0 : ℚ) < d := by exact_mod_cast hd
  rw [le_div_iff₀ hd'] at h
  exact_mod_cast h

theorem le_of_ratio_ge {n d b : Nat} (hd : 0 < d) (h : (n : ℚ) / d ≤ b) : n ≤ b * d := by
  have hd' : (0 : ℚ) < d := by exact_mod_cast hd
  rw [div_le_iff₀ hd'] at h
  exact_mod_cast h

theorem ofFraction_canonical (negative : Bool) (num : Nat) {den : Nat} (hden : 0 < den) :
    ofFraction negative num den = .infinite negative ∨
      ∃ m e, Canonical m e ∧ ofFraction negative num den = .finite negative m e := by
  rcases num.eq_zero_or_pos with rfl | hnum
  · exact .inr ⟨0, -1074, ⟨by decide, by decide, by decide, .inr rfl⟩, rfl⟩
  · obtain ⟨top, hlow, hhigh, h⟩ := ofFraction_eq negative hnum hden
    simp only at h
    rw [h]
    obtain ⟨hd, hratio⟩ := scaled_ratio num hden (-max (top - 52) (-1074))
    have hle : roundDiv (scaled num den (-max (top - 52) (-1074))).1
        (scaled num den (-max (top - 52) (-1074))).2 ≤ 2 ^ 53 := by
      refine roundDiv_le hd (le_of_ratio_ge hd ?_)
      rw [hratio]
      calc (num : ℚ) / den * 2 ^ (-max (top - 52) (-1074))
          ≤ 2 ^ (top + 1) * 2 ^ (-max (top - 52) (-1074)) := by gcongr
        _ = 2 ^ (top + 1 - max (top - 52) (-1074)) := by rw [← zpow_add₀ two_ne_zero]; rfl
        _ ≤ 2 ^ (53 : Int) := zpow_le_zpow_right₀ (by norm_num) (by omega)
        _ = ((2 ^ 53 : ℕ) : ℚ) := by norm_num
    have hge : -1074 < top - 52 → 2 ^ 52 ≤ roundDiv (scaled num den (-max (top - 52) (-1074))).1
        (scaled num den (-max (top - 52) (-1074))).2 := by
      intro htop
      refine le_roundDiv hd (le_of_ratio_le hd ?_)
      rw [hratio]
      calc ((2 ^ 52 : ℕ) : ℚ) = 2 ^ (52 : Int) := by norm_num
        _ = 2 ^ top * 2 ^ (-max (top - 52) (-1074)) := by
          rw [← zpow_add₀ two_ne_zero]; congr 1; omega
        _ ≤ (num : ℚ) / den * 2 ^ (-max (top - 52) (-1074)) := by gcongr
    split_ifs with hcarry hover hover
    · exact .inl rfl
    · exact .inr ⟨_, _, ⟨by norm_num, by omega, by omega, .inl le_rfl⟩, rfl⟩
    · exact .inl rfl
    · refine .inr ⟨_, _, ⟨lt_of_le_of_ne hle hcarry, by omega, by omega, ?_⟩, rfl⟩
      rcases lt_or_ge (-1074) (top - 52) with htop | htop
      · exact .inl (hge htop)
      · exact .inr (by omega)

/-! ## Neighbourhoods -/

/-- A number of quarters of a unit lies in the neighbourhood. -/
def Neighbourhood.Holds (h : Neighbourhood) (x : ℚ) : Prop :=
  if h.closed then h.low ≤ x ∧ x ≤ h.high else h.low < x ∧ x < h.high

theorem Neighbourhood.Holds.bounds {h : Neighbourhood} {x : ℚ} (hx : h.Holds x) :
    (h.low : ℚ) ≤ x ∧ x ≤ h.high := by
  unfold Holds at hx
  split at hx
  · exact hx
  · exact ⟨hx.1.le, hx.2.le⟩

theorem Neighbourhood.Holds.closed_of_eq {h : Neighbourhood} {x : ℚ} (hx : h.Holds x)
    (he : x = h.low ∨ x = h.high) : h.closed = true := by
  unfold Holds at hx
  split at hx
  · assumption
  · rcases he with rfl | rfl
    · exact absurd hx.1 (lt_irrefl _)
    · exact absurd hx.2 (lt_irrefl _)

theorem neighbourhood_low {m : Nat} (e : Int) (hm : 0 < m) :
    ((neighbourhood m e).low : ℚ) = 4 * m - if m = 2 ^ 52 ∧ -1074 < e then 1 else 2 := by
  have hsub : ∀ k ≤ 4 * m, ((4 * m - k : ℕ) : ℚ) = 4 * m - k := fun k hk => by
    push_cast [Nat.cast_sub hk]; ring
  simp only [neighbourhood, Nat.pow_eq, gt_iff_lt, Bool.and_eq_true, decide_eq_true_eq]
  split
  · exact_mod_cast hsub 1 (by omega)
  · exact_mod_cast hsub 2 (by omega)

theorem neighbourhood_high (m : Nat) (e : Int) : ((neighbourhood m e).high : ℚ) = 4 * m + 2 := by
  simp [neighbourhood]

theorem neighbourhood_closed (m : Nat) (e : Int) :
    (neighbourhood m e).closed = true ↔ m % 2 = 0 := by
  simp [neighbourhood]

theorem lt_of_pow_le {y : ℚ} {e top k : Int} (htop : (2 : ℚ) ^ top ≤ y * 2 ^ e) (hk : y < 2 ^ k) :
    top < e + k := by
  refine (zpow_lt_zpow_iff_right₀ (by norm_num : (1 : ℚ) < 2)).1 (lt_of_le_of_lt htop ?_)
  rw [add_comm, zpow_add₀ two_ne_zero]
  gcongr

theorem le_of_lt_pow {y : ℚ} {e top k : Int} (htop : y * 2 ^ e < 2 ^ (top + 1)) (hk : 2 ^ k ≤ y) :
    e + k ≤ top := by
  have : e + k < top + 1 := by
    refine (zpow_lt_zpow_iff_right₀ (by norm_num : (1 : ℚ) < 2)).1 (lt_of_le_of_lt ?_ htop)
    rw [add_comm, zpow_add₀ two_ne_zero]
    gcongr
  omega

/-- The digits that are kept of a fraction in the neighbourhood of a number, `y` in units of the last
place, end where those of the number end, unless the fraction is below a power of two. -/
theorem cut_of_bounds {m : Nat} {e top : Int} {y : ℚ} (h : Canonical m e)
    (hlow : (4 * m - if m = 2 ^ 52 ∧ -1074 < e then 1 else 2 : ℚ) ≤ 4 * y)
    (hhigh : 4 * y ≤ 4 * (m : ℚ) + 2) (hbelow : ¬ (m = 2 ^ 52 ∧ -1074 < e ∧ y < m))
    (htop : (2 : ℚ) ^ top ≤ y * 2 ^ e) (htop' : y * 2 ^ e < 2 ^ (top + 1)) :
    max (top - 52) (-1074) = e := by
  have hm : (m : ℚ) + 1 ≤ 2 ^ 53 := by exact_mod_cast h.mantissa
  have hleast := h.least
  have hlt := lt_of_pow_le htop (k := 53) (by
    rw [show (2 : ℚ) ^ (53 : Int) = 2 ^ 53 by norm_num]; linarith)
  rcases h.full with hfull | rfl
  · rcases eq_or_ne e (-1074) with rfl | he
    · omega
    · have hle := le_of_lt_pow htop' (k := 52) (by
        rcases hfull.eq_or_lt with heq | hlt'
        · have : (m : ℚ) ≤ y := not_lt.1 fun hym => hbelow ⟨heq.symm, by omega, hym⟩
          rw [← heq] at this
          exact_mod_cast this
        · have : (2 ^ 52 + 1 : ℚ) ≤ m := by exact_mod_cast hlt'
          rw [show (2 : ℚ) ^ (52 : Int) = 2 ^ 52 by norm_num]
          split_ifs at hlow <;> linarith)
      omega
  · omega

/-- What lies in the neighbourhood of a number is rounded to it. -/
theorem ofFraction_of_holds (negative : Bool) {m : Nat} {e : Int} (h : Canonical m e) (hm : 0 < m)
    {num den : Nat} (hden : 0 < den)
    (hx : (neighbourhood m e).Holds ((num : ℚ) / den * 2 ^ (2 - e))) :
    ofFraction negative num den = .finite negative m e := by
  obtain ⟨hlow, hhigh⟩ := hx.bounds
  have hclosed := hx.closed_of_eq
  rw [neighbourhood_closed] at hclosed
  rw [neighbourhood_low e hm] at hlow hclosed
  rw [neighbourhood_high] at hhigh hclosed
  have hm₁ : (1 : ℚ) ≤ m := by exact_mod_cast hm
  -- the fraction in units of the last place
  obtain ⟨y, hy⟩ : ∃ y : ℚ, y = num / den * 2 ^ (-e) := ⟨_, rfl⟩
  have hquarter : (num : ℚ) / den * 2 ^ (2 - e) = 4 * y := by
    rw [hy, sub_eq_add_neg, zpow_add₀ two_ne_zero]; ring
  have hfraction : (num : ℚ) / den = y * 2 ^ e := by
    rw [hy, mul_assoc, ← zpow_add₀ two_ne_zero, neg_add_cancel, zpow_zero, mul_one]
  rw [hquarter] at hlow hhigh hclosed
  have hpos : 0 < y := by split_ifs at hlow <;> linarith
  have hnum : 0 < num := by
    rcases num.eq_zero_or_pos with rfl | hnum
    · simp [hy] at hpos
    · exact hnum
  obtain ⟨top, htop, htop', hround⟩ := ofFraction_eq negative hnum hden
  rw [hfraction] at htop htop'
  obtain ⟨hd, hratio⟩ := scaled_ratio num hden (-max (top - 52) (-1074))
  simp only at hround
  rw [hround]
  have hrange := h.greatest
  by_cases hbelow : m = 2 ^ 52 ∧ -1074 < e ∧ y < m
  · -- below a power of two one more digit is kept, and rounding carries over to it
    obtain ⟨rfl, he, hym⟩ := hbelow
    rw [if_pos ⟨rfl, he⟩] at hlow
    have hlt := lt_of_pow_le htop (k := 52) (by exact_mod_cast hym)
    have hle := le_of_lt_pow htop' (k := 51) (by norm_num at hlow ⊢; linarith)
    have hcut : max (top - 52) (-1074) = e - 1 := by omega
    have hdouble : (num : ℚ) / den * 2 ^ (-(e - 1)) = 2 * y := by
      rw [hy, neg_sub, sub_eq_add_neg, zpow_add₀ two_ne_zero]; ring
    rw [hcut] at hd hratio ⊢
    have hcarry : roundDiv (scaled num den (-(e - 1))).1 (scaled num den (-(e - 1))).2 = 2 ^ 53 := by
      refine roundDiv_of_abs_le hd ?_ fun _ => by norm_num
      rw [hratio, hdouble, abs_le]
      norm_num at hlow hym ⊢
      constructor <;> linarith
    rw [hcarry, if_pos rfl, if_neg (by omega), sub_add_cancel]
  · have hcut := cut_of_bounds h hlow hhigh hbelow htop htop'
    rw [hcut] at hd hratio ⊢
    have hmantissa : roundDiv (scaled num den (-e)).1 (scaled num den (-e)).2 = m := by
      refine roundDiv_of_abs_le hd ?_ ?_
      · rw [hratio, ← hy, abs_le]
        constructor
        · split_ifs at hlow <;> linarith
        · linarith
      · rw [hratio, ← hy]
        intro htie
        refine hclosed ?_
        rcases le_total 0 (y - m) with hsign | hsign
        · rw [abs_of_nonneg hsign] at htie
          right; linarith
        · rw [abs_of_nonpos hsign] at htie
          left
          split_ifs at hlow ⊢ <;> linarith
    rw [hmantissa, if_neg h.mantissa.ne, if_neg (by omega)]

end ConfigCare.Binary64
