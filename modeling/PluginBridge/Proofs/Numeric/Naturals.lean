import Mathlib.Tactic.Common
import Mathlib.Tactic.Ring
import PluginBridge.Numeric.Binary64
namespace PluginBridge
namespace Binary64
variable {n significand biased : Nat}

theorem magnitude_ofMagnitude {negative : Bool} {size : Nat} (small : size ≤ infiniteMagnitude) :
    (ofMagnitude negative size).magnitude = size := by
  rw [infiniteMagnitude] at small
  simp only [ofMagnitude, magnitude, UInt64.toNat_ofNat', signBit, infiniteMagnitude]
  cases negative <;> simp <;> omega

theorem isNegative_ofMagnitude {negative : Bool} {size : Nat} (small : size ≤ infiniteMagnitude) :
    (ofMagnitude negative size).isNegative = negative := by
  rw [infiniteMagnitude] at small
  simp only [ofMagnitude, isNegative, UInt64.toNat_ofNat', signBit, infiniteMagnitude]
  cases negative <;> simp <;> omega

theorem meaning_normal {negative : Bool} (low : leastNormal ≤ significand)
    (high : significand < 2 * leastNormal) (field : biased < 2046) :
    (ofMagnitude negative (biased * leastNormal + significand)).isFinite = true ∧
      (ofMagnitude negative (biased * leastNormal + significand)).meaning =
        .finite negative significand ((biased : Int) - 1074) := by
  have small : biased * leastNormal + significand < infiniteMagnitude := by
    simp only [leastNormal, infiniteMagnitude] at high ⊢
    omega
  have size := @magnitude_ofMagnitude negative _ (Nat.le_of_lt small)
  have sign := @isNegative_ofMagnitude negative _ (Nat.le_of_lt small)
  have quotient : (biased * leastNormal + significand) / leastNormal = biased + 1 := by
    simp only [leastNormal] at low high ⊢
    omega
  have rest : (biased * leastNormal + significand) % leastNormal = significand - leastNormal := by
    simp only [leastNormal] at low high ⊢
    omega
  refine ⟨?_, ?_⟩
  · rw [isFinite, size]
    exact decide_eq_true small
  · simp only [meaning, size, sign, quotient, rest]
    rw [if_neg (by omega), if_neg (by omega), Nat.add_sub_cancel' low]
    congr 1
    omega

theorem meaning_finite {x : Binary64} (finite : x.isFinite = true) :
    ∃ negative significand exponent, x.meaning = .finite negative significand exponent := by
  have below : x.magnitude < infiniteMagnitude := of_decide_eq_true finite
  have notLast : x.magnitude / leastNormal ≠ 2047 := by
    simp only [infiniteMagnitude, leastNormal] at below ⊢
    omega
  unfold meaning
  rw [if_neg notLast]
  split
  · exact ⟨_, _, _, rfl⟩
  · exact ⟨_, _, _, rfl⟩

theorem roundHalfEven_exact {den : Nat} (positive : den ≠ 0) (n : Nat) :
    roundHalfEven (n * den) den = n := by
  simp [roundHalfEven, Nat.mul_div_cancel _ (Nat.pos_of_ne_zero positive), Nat.pos_of_ne_zero positive]

theorem shifted_down {num den : Nat} {exponent : Int} (negative : exponent ≤ 0) :
    shifted num den exponent = (num * 2 ^ (-exponent).toNat, den) := by
  rw [shifted]
  split
  · obtain rfl : exponent = 0 := by omega
    simp
  · rfl

theorem significand_low (some : n ≠ 0) (small : n.log2 ≤ 52) : leastNormal ≤ n * 2 ^ (52 - n.log2) := by
  calc leastNormal = 2 ^ n.log2 * 2 ^ (52 - n.log2) := by
        rw [← Nat.pow_add, Nat.add_sub_cancel' small]
        rfl
    _ ≤ n * 2 ^ (52 - n.log2) := Nat.mul_le_mul_right _ (Nat.log2_self_le some)

theorem significand_high (small : n.log2 ≤ 52) : n * 2 ^ (52 - n.log2) < 2 * leastNormal := by
  calc n * 2 ^ (52 - n.log2) < 2 ^ (n.log2 + 1) * 2 ^ (52 - n.log2) :=
        Nat.mul_lt_mul_of_pos_right Nat.lt_log2_self (Nat.two_pow_pos _)
    _ = 2 * leastNormal := by
        rw [← Nat.pow_add, Nat.add_right_comm, Nat.add_sub_cancel' small]
        rfl

theorem log2_mul {n d : Nat} (some : n ≠ 0) (divisor : d ≠ 0) :
    (n * d).log2 = n.log2 + d.log2 ∨ (n * d).log2 = n.log2 + d.log2 + 1 := by
  have both : n * d ≠ 0 := Nat.mul_ne_zero some divisor
  have low : 2 ^ (n.log2 + d.log2) ≤ n * d := by
    rw [Nat.pow_add]
    exact Nat.mul_le_mul (Nat.log2_self_le some) (Nat.log2_self_le divisor)
  have high : n * d < 2 ^ (n.log2 + d.log2 + 2) := by
    calc n * d < 2 ^ (n.log2 + 1) * 2 ^ (d.log2 + 1) := Nat.mul_lt_mul'' Nat.lt_log2_self Nat.lt_log2_self
      _ = 2 ^ (n.log2 + d.log2 + 2) := by
        rw [← Nat.pow_add]
        congr 1
        omega
  have least := (Nat.le_log2 both).mpr low
  have most := (Nat.log2_lt both).mpr high
  omega

theorem ofRatio_whole {d : Nat} (some : n ≠ 0) (small : n.log2 ≤ 52) (divisor : d ≠ 0) :
    ofRatio false (n * d) d =
      ofMagnitude false ((n.log2 + 1022) * leastNormal + n * 2 ^ (52 - n.log2)) := by
  have both : n * d ≠ 0 := Nat.mul_ne_zero some divisor
  have scaled : shifted (n * d) d ((n.log2 : Int) - 52) = (n * 2 ^ (52 - n.log2) * d, d) := by
    have shift : (-((n.log2 : Int) - 52)).toNat = 52 - n.log2 := by omega
    rw [shifted_down (by omega), shift, Nat.mul_right_comm]
  have fitted : (if (shifted (n * d) d (((n * d).log2 : Int) - d.log2 - 52)).1 <
        leastNormal * (shifted (n * d) d (((n * d).log2 : Int) - d.log2 - 52)).2 then
        ((n * d).log2 : Int) - d.log2 - 52 - 1 else ((n * d).log2 : Int) - d.log2 - 52) =
      (n.log2 : Int) - 52 := by
    -- The product may have one place more; then the first guess is one too large and is corrected.
    rcases log2_mul some divisor with exact | carried
    · have guess : ((n * d).log2 : Int) - d.log2 - 52 = (n.log2 : Int) - 52 := by omega
      rw [guess, scaled, if_neg]
      exact Nat.not_lt.mpr (Nat.mul_le_mul_right d (significand_low some small))
    · have guess : ((n * d).log2 : Int) - d.log2 - 52 = (n.log2 : Int) - 51 := by omega
      rw [guess, if_pos]
      · omega
      · have below := significand_high small
        by_cases last : n.log2 = 52
        · rw [last] at below ⊢
          have up : shifted (n * d) d ((52 : Nat) - 51 : Int) = (n * d, d * 2) := rfl
          have wide : n < leastNormal * 2 := by omega
          rw [up, Nat.mul_comm d, ← Nat.mul_assoc]
          exact Nat.mul_lt_mul_of_pos_right wide (Nat.pos_of_ne_zero divisor)
        · have halves : 2 ^ (52 - n.log2) = 2 * 2 ^ (51 - n.log2) := by
            rw [← Nat.pow_succ']
            congr 1
            omega
          have shift : (-((n.log2 : Int) - 51)).toNat = 51 - n.log2 := by omega
          have half : n * 2 ^ (51 - n.log2) < leastNormal := by
            rw [halves, Nat.mul_left_comm] at below
            omega
          rw [shifted_down (by omega), shift, Nat.mul_right_comm]
          exact Nat.mul_lt_mul_of_pos_right half (Nat.pos_of_ne_zero divisor)
  have exponent : max ((n.log2 : Int) - 52) (-1074) = (n.log2 : Int) - 52 := Int.max_eq_left (by omega)
  simp only [ofRatio, if_neg both, fitted, exponent, scaled, roundHalfEven_exact divisor]
  congr 3
  omega

theorem ofNat_ofRatio {d : Nat} (some : n ≠ 0) (small : n.log2 ≤ 52) (divisor : d ≠ 0) :
    ofRatio false (n * d) d = ofNat n := by
  have one := @ofRatio_whole n 1 some small (by decide)
  rw [Nat.mul_one] at one
  rw [ofRatio_whole some small divisor, ofNat, one]

theorem ofNat_meaning (some : n ≠ 0) (small : n.log2 ≤ 52) :
    (ofNat n).isFinite = true ∧
      (ofNat n).meaning = .finite false (n * 2 ^ (52 - n.log2)) ((n.log2 : Int) - 52) := by
  have whole := @ofRatio_whole n 1 some small (by decide)
  obtain ⟨finite, meaning⟩ := @meaning_normal _ (n.log2 + 1022) false (significand_low some small)
    (significand_high small) (by omega)
  have field : ((n.log2 + 1022 : Nat) : Int) - 1074 = (n.log2 : Int) - 52 := by omega
  rw [field] at meaning
  rw [Nat.mul_one] at whole
  rw [ofNat, whole]
  exact ⟨finite, meaning⟩

theorem ofNat_divFinite {d : Nat} (some : n ≠ 0) (divisor : d ≠ 0) (small : (n * d).log2 ≤ 52) :
    (ofNat (n * d)).divFinite (ofNat d) = ofNat n := by
  have both : n * d ≠ 0 := Nat.mul_ne_zero some divisor
  have carry := log2_mul some divisor
  have dividend := (ofNat_meaning both small).2
  have divides := (ofNat_meaning divisor (by omega)).2
  have unit : d * 2 ^ (52 - d.log2) ≠ 0 := Nat.mul_ne_zero divisor (Nat.two_pow_pos _).ne'
  have shift : (-(((d.log2 : Int) - 52) - (((n * d).log2 : Int) - 52))).toNat =
      (n * d).log2 - d.log2 := by omega
  have scaled : n * d * 2 ^ (52 - (n * d).log2) * 2 ^ ((n * d).log2 - d.log2) =
      n * (d * 2 ^ (52 - d.log2)) := by
    rw [Nat.mul_assoc, ← Nat.pow_add, Nat.mul_assoc]
    congr 3
    omega
  simp only [divFinite, dividend, divides, if_neg unit]
  rw [shifted_down (by omega), shift, scaled]
  exact ofNat_ofRatio some (by omega) unit

theorem ofNat_finite (small : n < 0x20000000000000) : (ofNat n).isFinite = true := by
  by_cases none : n = 0
  · subst none
    decide
  · exact (ofNat_meaning none (Nat.le_of_lt_succ ((Nat.log2_lt none).mpr small))).1

theorem ofNat_clamp {high : Nat} (small : n < 0x20000000000000) (within : n ≤ high) :
    (ofNat n).clampToRange 0 high = n := by
  by_cases none : n = 0
  · subst none
    have zero : (ofNat 0).meaning = .finite false 0 (-1074) := by decide
    have truncated : (ofNat 0).truncate? = some 0 := by decide +kernel
    simp only [clampToRange, zero, truncated, Option.getD_some]
    omega
  · have fits : n.log2 ≤ 52 := Nat.le_of_lt_succ ((Nat.log2_lt none).mpr small)
    have meaning := (ofNat_meaning none fits).2
    have truncated : (ofNat n).truncate? = some (n : Int) := by
      simp only [truncate?, meaning, Bool.false_eq_true, if_false]
      split
      · have exact : n.log2 = 52 := by omega
        simp [exact]
      · have shift : (-((n.log2 : Int) - 52)).toNat = 52 - n.log2 := by omega
        rw [shift, Nat.pow_eq, Nat.mul_div_cancel _ (Nat.two_pow_pos _)]
    simp only [clampToRange, meaning, truncated, Option.getD_some]
    omega

end Binary64
end PluginBridge
