import Mathlib.Algebra.Order.Field.Power
import Mathlib.Data.Rat.Cast.Order
import Mathlib.Tactic.FieldSimp
import Mathlib.Tactic.Linarith
import PluginBridge.Proofs.Numeric.Naturals
namespace PluginBridge
namespace Binary64
variable {num den field place : Nat} {negative : Bool} {x y : Binary64}

def size (x : Binary64) : ℚ :=
  match x.meaning with
  | .finite _ significand exponent => significand * 2 ^ exponent
  | _ => 0

-- From here on a number is nearer to infinity than to the largest finite one.
@[irreducible]
def overflow : Nat := 0x3FFFFFFFFFFFFF * 2 ^ 970

theorem overflow_between : 2 ^ 54 < overflow ∧ overflow < leastNormal * 2 ^ 972 := by
  decide +kernel

theorem overflow_eq : (overflow : ℚ) = 0x3FFFFFFFFFFFFF * 2 ^ (970 : Int) := by
  unfold overflow
  rw [Nat.cast_mul, Nat.cast_pow, ← zpow_natCast]
  norm_num only

theorem ratio_overflow (below : num < overflow * den) : (num / den : ℚ) < overflow := by
  have divisor : 0 < den := Nat.pos_of_ne_zero fun none => by simp [none] at below
  rw [div_lt_iff₀ (Nat.cast_pos.mpr divisor)]
  exact_mod_cast below

theorem shifted_ratio (divisor : den ≠ 0) (exponent : Int) :
    (shifted num den exponent).2 ≠ 0 ∧
      ((shifted num den exponent).1 : ℚ) / (shifted num den exponent).2 = num / den / 2 ^ exponent := by
  obtain ⟨n, rfl | rfl⟩ := exponent.eq_nat_or_neg
  · have up : shifted num den n = (num, den * 2 ^ n) := by simp [shifted]
    rw [up]
    refine ⟨by positivity, ?_⟩
    push_cast
    rw [zpow_natCast, div_div]
  · have down : shifted num den (-n) = (num * 2 ^ n, den) := by
      rw [shifted_down (by omega)]
      simp
    rw [down]
    refine ⟨divisor, ?_⟩
    push_cast
    rw [zpow_neg, zpow_natCast, div_inv_eq_mul, mul_div_right_comm]

theorem roundHalfEven_near (divisor : den ≠ 0) :
    (roundHalfEven num den : ℚ) ≤ num / den + 1 / 2 ∧ (num / den : ℚ) ≤ roundHalfEven num den + 1 / 2 := by
  have parts := Nat.div_add_mod num den
  have near : 2 * (den * roundHalfEven num den) ≤ 2 * num + den ∧
      2 * num ≤ 2 * (den * roundHalfEven num den) + den := by
    unfold roundHalfEven
    simp only
    split
    · omega
    · have rest := Nat.mod_lt num (Nat.pos_of_ne_zero divisor)
      split
      · rw [Nat.mul_add_one]
        omega
      · split
        · omega
        · rw [Nat.mul_add_one]
          omega
  have positive : (0 : ℚ) < den := Nat.cast_pos.mpr (Nat.pos_of_ne_zero divisor)
  obtain ⟨above, below⟩ := near
  have above : 2 * (den * roundHalfEven num den : ℚ) ≤ 2 * num + den := mod_cast above
  have below : (2 * num : ℚ) ≤ 2 * (den * roundHalfEven num den) + den := mod_cast below
  constructor
  · rw [div_add' _ _ _ positive.ne', le_div_iff₀ positive]
    linarith
  · rw [div_le_iff₀ positive]
    linarith

theorem size_ofMagnitude (high : place ≤ 2 * leastNormal) (normal : field = 0 ∨ leastNormal ≤ place)
    (small : field * leastNormal + place < infiniteMagnitude) :
    (ofMagnitude negative (field * leastNormal + place)).isFinite = true ∧
      (ofMagnitude negative (field * leastNormal + place)).size = place * 2 ^ ((field : Int) - 1074) := by
  have magnitude := @magnitude_ofMagnitude negative _ (Nat.le_of_lt small)
  refine ⟨by rw [isFinite, magnitude]; exact decide_eq_true small, ?_⟩
  by_cases carried : place = 2 * leastNormal
  · have next : field * leastNormal + place = (field + 1) * leastNormal + leastNormal := by
      rw [carried]
      ring
    have inside : field + 1 < 2046 := by
      rw [next, infiniteMagnitude, leastNormal] at small
      omega
    rw [next, size, (meaning_normal (Nat.le_refl _) (by decide) inside).2, carried]
    push_cast
    rw [show ((field : Int) + 1 - 1074) = (field - 1074) + 1 by ring, zpow_add_one₀ two_ne_zero]
    ring
  · by_cases least : leastNormal ≤ place
    · have inside : field < 2046 := by
        simp only [leastNormal, infiniteMagnitude] at small least
        omega
      rw [size, (meaning_normal least (by omega) inside).2]
    · obtain rfl : field = 0 := normal.resolve_right least
      rw [Nat.zero_mul, Nat.zero_add] at magnitude ⊢
      have quotient : place / leastNormal = 0 := Nat.div_eq_of_lt (Nat.not_le.mp least)
      have rest : place % leastNormal = place := Nat.mod_eq_of_lt (Nat.not_le.mp least)
      simp [size, meaning, magnitude, quotient, rest]

theorem ratio_between (some : num ≠ 0) (divisor : den ≠ 0) :
    (2 ^ ((num.log2 : Int) - den.log2 - 1) : ℚ) < num / den ∧
      (num / den : ℚ) < 2 ^ ((num.log2 : Int) - den.log2 + 1) := by
  have positive : (0 : ℚ) < den := Nat.cast_pos.mpr (Nat.pos_of_ne_zero divisor)
  have least : (2 ^ num.log2 : ℚ) ≤ num := mod_cast Nat.log2_self_le some
  have most : (num : ℚ) < 2 ^ (num.log2 + 1) := mod_cast Nat.lt_log2_self
  have below : (2 ^ den.log2 : ℚ) ≤ den := mod_cast Nat.log2_self_le divisor
  have above : (den : ℚ) < 2 ^ (den.log2 + 1) := mod_cast Nat.lt_log2_self
  constructor
  · rw [lt_div_iff₀ positive]
    calc (2 ^ ((num.log2 : Int) - den.log2 - 1) * den : ℚ)
        < 2 ^ ((num.log2 : Int) - den.log2 - 1) * 2 ^ (den.log2 + 1) := by gcongr
      _ = 2 ^ num.log2 := by
        rw [← zpow_natCast, ← zpow_natCast, ← zpow_add₀ two_ne_zero]
        congr 1
        omega
      _ ≤ num := least
  · rw [div_lt_iff₀ positive]
    calc (num : ℚ) < 2 ^ (num.log2 + 1) := most
      _ = 2 ^ ((num.log2 : Int) - den.log2 + 1) * 2 ^ den.log2 := by
        rw [← zpow_natCast, ← zpow_natCast, ← zpow_add₀ two_ne_zero]
        congr 1
        omega
      _ ≤ 2 ^ ((num.log2 : Int) - den.log2 + 1) * den := by gcongr

theorem shifted_below (divisor : den ≠ 0) (exponent : Int) :
    (shifted num den exponent).1 < leastNormal * (shifted num den exponent).2 ↔
      (num / den : ℚ) / 2 ^ exponent < leastNormal := by
  obtain ⟨nonzero, ratio⟩ := @shifted_ratio num den divisor exponent
  rw [← ratio, div_lt_iff₀ (Nat.cast_pos.mpr (Nat.pos_of_ne_zero nonzero))]
  norm_cast

theorem fitted_normal (some : num ≠ 0) (divisor : den ≠ 0) :
    let guess : Int := (num.log2 : Int) - den.log2 - 52
    let fitted := if (shifted num den guess).1 < leastNormal * (shifted num den guess).2 then guess - 1 else guess
    (leastNormal : ℚ) ≤ num / den / 2 ^ fitted ∧ (num / den : ℚ) / 2 ^ fitted < 2 * leastNormal := by
  intro guess fitted
  have scale : (0 : ℚ) < 2 ^ guess := zpow_pos two_pos _
  obtain ⟨least, most⟩ := ratio_between some divisor
  have low : (leastNormal : ℚ) < 2 * (num / den / 2 ^ guess) := by
    rw [mul_div_assoc', lt_div_iff₀ scale]
    calc (leastNormal : ℚ) * 2 ^ guess = 2 * 2 ^ ((num.log2 : Int) - den.log2 - 1) := by
          rw [show (num.log2 : Int) - den.log2 - 1 = 51 + guess by omega, zpow_add₀ two_ne_zero, leastNormal]
          norm_num
          ring
      _ < 2 * (num / den) := by gcongr
  have high : (num / den : ℚ) / 2 ^ guess < 2 * leastNormal := by
    rw [div_lt_iff₀ scale]
    calc (num / den : ℚ) < 2 ^ ((num.log2 : Int) - den.log2 + 1) := most
      _ = 2 * leastNormal * 2 ^ guess := by
          rw [show (num.log2 : Int) - den.log2 + 1 = 53 + guess by omega, zpow_add₀ two_ne_zero, leastNormal]
          norm_num
  simp only [fitted]
  split
  · rename_i less
    have less := (shifted_below divisor guess).mp less
    have half : (num / den : ℚ) / 2 ^ (guess - 1) = 2 * (num / den / 2 ^ guess) := by
      rw [zpow_sub_one₀ two_ne_zero]
      field_simp
    rw [half]
    exact ⟨low.le, by linarith⟩
  · rename_i more
    exact ⟨not_lt.mp (mt (shifted_below divisor guess).mpr more), high⟩

-- The exponent is chosen so that 53 places stand before the point, fewer below the normal range.
theorem ofRatio_rounded (some : num ≠ 0) (divisor : den ≠ 0) (negative : Bool) :
    ∃ field place : Nat, ofRatio negative num den = ofMagnitude negative (field * leastNormal + place) ∧
      (place : ℚ) ≤ num / den / 2 ^ ((field : Int) - 1074) + 1 / 2 ∧
      (num / den : ℚ) / 2 ^ ((field : Int) - 1074) ≤ place + 1 / 2 ∧
      (num / den : ℚ) / 2 ^ ((field : Int) - 1074) < 2 * leastNormal ∧
      (field = 0 ∨ (leastNormal : ℚ) ≤ num / den / 2 ^ ((field : Int) - 1074)) := by
  let guess : Int := (num.log2 : Int) - den.log2 - 52
  let fitted := if (shifted num den guess).1 < leastNormal * (shifted num den guess).2 then guess - 1 else guess
  obtain ⟨least, most⟩ : (leastNormal : ℚ) ≤ num / den / 2 ^ fitted ∧ (num / den : ℚ) / 2 ^ fitted < 2 * leastNormal :=
    fitted_normal some divisor
  let exponent := max fitted (-1074)
  obtain ⟨nonzero, ratio⟩ := @shifted_ratio num den divisor exponent
  obtain ⟨above, below⟩ := @roundHalfEven_near (shifted num den exponent).1 (shifted num den exponent).2 nonzero
  rw [ratio] at above below
  have field : (((exponent + 1074).toNat : Nat) : Int) - 1074 = exponent := by omega
  refine ⟨(exponent + 1074).toNat, roundHalfEven (shifted num den exponent).1 (shifted num den exponent).2, ?_, ?_⟩
  · rw [ofRatio, if_neg some]
  · rw [field]
    refine ⟨above, below, lt_of_le_of_lt ?_ most, ?_⟩
    · have wider : (2 : ℚ) ^ fitted ≤ 2 ^ exponent := zpow_le_zpow_right₀ one_le_two (le_max_left _ _)
      exact div_le_div_of_nonneg_left (div_nonneg num.cast_nonneg den.cast_nonneg) (zpow_pos two_pos _) wider
    · rcases le_total fitted (-1074) with small | large
      · exact .inl (by omega)
      · rw [show exponent = fitted from max_eq_left large]
        exact .inr least

theorem field_small (below : (num / den : ℚ) < overflow)
    (normal : field = 0 ∨ (leastNormal : ℚ) ≤ num / den / 2 ^ ((field : Int) - 1074)) : field ≤ 2045 := by
  by_contra large
  have least := normal.resolve_left (by omega)
  rw [le_div_iff₀ (zpow_pos two_pos _)] at least
  have scale : (2 : ℚ) ^ (972 : Int) ≤ 2 ^ ((field : Int) - 1074) := zpow_le_zpow_right₀ one_le_two (by omega)
  have past : (overflow : ℚ) < leastNormal * 2 ^ (972 : Int) := by
    exact_mod_cast overflow_between.2
  have reached : (leastNormal : ℚ) * 2 ^ (972 : Int) ≤ leastNormal * 2 ^ ((field : Int) - 1074) := by gcongr
  linarith

-- Below the middle between the largest finite number and the next power of two no quotient overflows. Beside it
-- the rounded one lies by at most half a place.
theorem ofRatio_near (some : num ≠ 0) (divisor : den ≠ 0) (below : (num / den : ℚ) < overflow) (negative : Bool) :
    ∃ field : Nat, (ofRatio negative num den).isFinite = true ∧
      (ofRatio negative num den).size ≤ num / den + 2 ^ ((field : Int) - 1074) / 2 ∧
      (field = 0 ∨ leastNormal * 2 ^ ((field : Int) - 1074) ≤ (num / den : ℚ)) := by
  obtain ⟨field, place, written, above, under, high, normal⟩ := ofRatio_rounded some divisor negative
  have few := field_small below normal
  have scale : (0 : ℚ) < 2 ^ ((field : Int) - 1074) := zpow_pos two_pos _
  have carried : place ≤ 2 * leastNormal := by
    have close : (place : ℚ) < (2 * leastNormal + 1 : Nat) := by
      push_cast
      linarith
    exact Nat.le_of_lt_succ (Nat.cast_lt.mp close)
  have least : field = 0 ∨ leastNormal ≤ place := by
    refine normal.imp_right fun least => ?_
    have close : (leastNormal : ℚ) < (place + 1 : Nat) := by
      push_cast
      linarith
    exact Nat.le_of_lt_succ (Nat.cast_lt.mp close)
  have small : field * leastNormal + place < infiniteMagnitude := by
    rcases Nat.lt_or_eq_of_le few with fewer | rfl
    · simp only [leastNormal, infiniteMagnitude] at carried ⊢
      omega
    -- In the last field half a place is missing to the next power of two.
    · rw [overflow_eq, ← div_lt_iff₀ (zpow_pos two_pos _)] at below
      have close : (place : ℚ) < (2 * leastNormal : Nat) := by
        have half : (num / den : ℚ) / 2 ^ (((2045 : Nat) : Int) - 1074) = num / den / 2 ^ (970 : Int) / 2 := by
          rw [show (((2045 : Nat) : Int) - 1074) = 970 + 1 by rfl, zpow_add_one₀ two_ne_zero, div_div _ _ (2 : ℚ)]
        rw [half] at above
        generalize (num / den : ℚ) / 2 ^ (970 : Int) = units at below above
        push_cast [leastNormal] at above ⊢
        linarith
      have close := Nat.cast_lt.mp close
      simp only [leastNormal, infiniteMagnitude] at close ⊢
      omega
  obtain ⟨finite, size⟩ := @size_ofMagnitude field place negative carried least small
  refine ⟨field, written ▸ finite, ?_, normal.imp_right (le_div_iff₀ scale).mp⟩
  rw [written, size, ← le_div_iff₀ scale, add_div, div_right_comm _ 2, div_self scale.ne']
  exact above

theorem ofRatio_finite (divisor : den ≠ 0) (below : (num / den : ℚ) < overflow) :
    (ofRatio negative num den).isFinite = true := by
  by_cases some : num = 0
  · subst some
    rw [ofRatio, if_pos rfl]
    cases negative <;> decide
  · obtain ⟨_, finite, _⟩ := ofRatio_near some divisor below negative
    exact finite

theorem ofRatio_size (divisor : den ≠ 0) (least : (1 : ℚ) ≤ num / den) (below : (num / den : ℚ) < overflow) :
    (ofRatio negative num den).size ≤ num / den * (1 + 1 / 2 ^ 53) := by
  have some : num ≠ 0 := by
    rintro rfl
    norm_num at least
  obtain ⟨field, -, near, normal⟩ := ofRatio_near some divisor below negative
  have place : (2 : ℚ) ^ ((field : Int) - 1074) * 2 ^ 52 ≤ num / den := by
    rcases normal with rfl | normal
    · refine le_trans ?_ least
      rw [← zpow_natCast, ← zpow_add₀ two_ne_zero]
      exact zpow_le_one_of_nonpos₀ one_le_two (by decide)
    · rw [mul_comm]
      rw [leastNormal] at normal
      norm_num only at normal ⊢
      exact normal
  linarith

theorem ofNat_size {n : Nat} (some : n ≠ 0) (below : n < overflow) :
    (ofNat n).isFinite = true ∧ (ofNat n).size ≤ n * (1 + 1 / 2 ^ 53) := by
  have one : ((n : ℚ) / (1 : Nat)) = n := by simp
  have least : (1 : ℚ) ≤ n := mod_cast Nat.one_le_iff_ne_zero.mpr some
  have finite := @ofRatio_finite n 1 false (by decide) (one.symm ▸ Nat.cast_lt.mpr below)
  have near := @ofRatio_size n 1 false (by decide) (one.symm ▸ least) (one.symm ▸ Nat.cast_lt.mpr below)
  rw [one] at near
  exact ⟨finite, near⟩

theorem ofNat_size_near {n : Nat} (some : n ≠ 0) (small : n < 2 ^ 54) : (ofNat n).size ≤ n + 1 := by
  have one : ((n : ℚ) / (1 : Nat)) = n := by simp
  have few : n < overflow := Nat.lt_trans small overflow_between.1
  obtain ⟨field, -, near, normal⟩ := @ofRatio_near n 1 some (by decide) (one.symm ▸ Nat.cast_lt.mpr few) false
  rw [one] at near normal
  have unit : (2 : ℚ) ^ ((field : Int) - 1074) ≤ 2 := by
    rcases normal with rfl | normal
    · exact le_trans (zpow_le_one_of_nonpos₀ one_le_two (by decide)) one_le_two
    · have places : (2 : ℚ) ^ ((field : Int) - 1074) < 2 ^ (2 : Int) := by
        have small : (n : ℚ) < 2 ^ 54 := mod_cast small
        rw [leastNormal] at normal
        norm_num only at small normal ⊢
        linarith
      have less := (zpow_lt_zpow_iff_right₀ one_lt_two).mp places
      calc (2 : ℚ) ^ ((field : Int) - 1074) ≤ 2 ^ (1 : Int) := zpow_le_zpow_right₀ one_le_two (by omega)
        _ = 2 := zpow_one 2
  change (ofRatio false n 1).size ≤ n + 1
  linarith

theorem size_nonneg (x : Binary64) : 0 ≤ x.size := by
  unfold size
  split
  · positivity
  · exact le_refl _

theorem mulFinite_finite (left : x.isFinite = true) (right : y.isFinite = true)
    (below : x.size * y.size < overflow) : (x.mulFinite y).isFinite = true := by
  obtain ⟨s, m, e, one⟩ := meaning_finite left
  obtain ⟨t, n, f, two⟩ := meaning_finite right
  obtain ⟨nonzero, ratio⟩ := @shifted_ratio (m * n) 1 (by decide) (-(e + f))
  have product : ((m * n : Nat) : ℚ) / (1 : Nat) / 2 ^ (-(e + f)) = x.size * y.size := by
    rw [size, size, one, two]
    push_cast
    rw [div_one, zpow_neg, div_inv_eq_mul, zpow_add₀ two_ne_zero]
    ring
  simp only [mulFinite, one, two]
  exact ofRatio_finite nonzero (ratio.trans product ▸ below)

end Binary64
end PluginBridge
