import Mathlib.Tactic.Positivity
import PluginBridge.Numeric.Decimal
import PluginBridge.Proofs.Numeric.Rounding
namespace PluginBridge

theorem Binary64.meaning_bounds {x : Binary64} {negative : Bool} {significand : Nat} {exponent : Int}
    (meant : x.meaning = .finite negative significand exponent) :
    significand < 2 * leastNormal ∧ exponent ≤ 971 ∧ (exponent = -1074 ∨ leastNormal ≤ significand) := by
  have size : x.magnitude < 0x8000000000000000 := Nat.mod_lt _ (by decide)
  have rest : x.magnitude % leastNormal < leastNormal := Nat.mod_lt _ (by decide)
  unfold meaning at meant
  simp only at meant
  split at meant
  · split at meant <;> cases meant
  · split at meant
    · cases meant
      exact ⟨by omega, by decide, .inl rfl⟩
    · cases meant
      refine ⟨by omega, ?_, .inr (Nat.le_add_right _ _)⟩
      rw [leastNormal] at *
      omega

namespace Decimal
variable {i : Interval} {d : Decimal} {significand : Nat} {exponent p quarter : Int}

def value (d : Decimal) : ℚ := d.digits * 10 ^ d.exponent

theorem commonUnits_ratio (p q : Int) : 0 < (commonUnits p q).1 ∧ 0 < (commonUnits p q).2 ∧
    ((commonUnits p q).1 : ℚ) / (commonUnits p q).2 = 10 ^ p / 2 ^ q := by
  have parts : ∀ (base : Nat) (exponent : Int), 0 < base →
      ((base ^ exponent.toNat : Nat) : ℚ) / (base ^ (-exponent).toNat : Nat) = base ^ exponent := by
    intro base exponent positive
    obtain ⟨n, rfl | rfl⟩ := exponent.eq_nat_or_neg
    · simp
    · simp
  have ten := parts 10 p (by decide)
  have two := parts 2 q (by decide)
  refine ⟨Nat.mul_pos (Nat.pow_pos (by decide)) (Nat.pow_pos (by decide)),
    Nat.mul_pos (Nat.pow_pos (by decide)) (Nat.pow_pos (by decide)), ?_⟩
  simp only [commonUnits, Nat.pow_eq]
  rw [Nat.cast_ofNat] at ten two
  rw [← ten, ← two]
  push_cast
  rw [div_div_div_eq]
  congr 1
  ring

theorem Interval.holds_high {point unit : Nat} (held : i.holds point unit = true) : point ≤ i.high * unit := by
  unfold holds at held
  split at held
  · exact (of_decide_eq_true (Bool.and_eq_true_iff.mp held).2)
  · exact Nat.le_of_lt (of_decide_eq_true (Bool.and_eq_true_iff.mp held).2)

theorem onGrid_found (found : onGrid? i quarter p = some d) :
    d.exponent = p ∧ 0 < d.digits ∧ i.holds (d.digits * (commonUnits p quarter).1) (commonUnits p quarter).2 = true := by
  have fit : ∀ {digits : Nat}, (decide (0 < digits) && i.holds (digits * (commonUnits p quarter).1)
      (commonUnits p quarter).2) = true → d = ⟨digits, p⟩ → d.exponent = p ∧ 0 < d.digits ∧
        i.holds (d.digits * (commonUnits p quarter).1) (commonUnits p quarter).2 = true := by
    rintro digits fits rfl
    obtain ⟨positive, held⟩ := Bool.and_eq_true_iff.mp fits
    exact ⟨rfl, of_decide_eq_true positive, held⟩
  unfold onGrid? at found
  simp only at found
  split at found
  · rename_i below _
    exact fit below (Option.some.inj found).symm
  · rename_i _ above
    exact fit above (Option.some.inj found).symm
  · cases found
  · rename_i below above
    split at found
    · exact fit below (Option.some.inj found).symm
    · split at found
      · exact fit above (Option.some.inj found).symm
      · split at found
        · exact fit below (Option.some.inj found).symm
        · exact fit above (Option.some.inj found).symm

theorem onGrid_value (found : onGrid? i quarter p = some d) : d.value ≤ i.high * 2 ^ quarter := by
  obtain ⟨-, positive, ratio⟩ := commonUnits_ratio p quarter
  obtain ⟨on, -, held⟩ := onGrid_found found
  have unit : (0 : ℚ) < (commonUnits p quarter).2 := Nat.cast_pos.mpr positive
  have inside : (d.digits * (commonUnits p quarter).1 : ℚ) ≤ i.high * (commonUnits p quarter).2 :=
    mod_cast Interval.holds_high held
  rw [← div_le_iff₀ unit, mul_div_assoc, ratio, mul_div_assoc', div_le_iff₀ (zpow_pos two_pos _)] at inside
  rwa [value, on]

theorem Interval.holds_inside {point unit : Nat} (above : i.low * unit < point) (below : point < i.high * unit) :
    i.holds point unit = true := by
  unfold holds
  split <;> simp [above, below, Nat.le_of_lt]

theorem around_holds {step unit : Nat} (nonzero : significand ≠ 0) (positive : 0 < step) (fine : step < 3 * unit) :
    let i := Interval.around significand exponent
    let below := i.value * unit / step
    0 < below ∧ i.holds (below * step) unit = true ∨ i.holds ((below + 1) * step) unit = true := by
  intro i below
  have low : i.low * unit + unit ≤ i.value * unit := by
    rw [← Nat.succ_mul]
    refine Nat.mul_le_mul_right _ ?_
    simp only [i, Interval.around]
    split <;> omega
  have high : i.high * unit = i.value * unit + 2 * unit := Nat.add_mul _ _ _
  have whole : unit ≤ i.value * unit := Nat.le_mul_of_pos_left _ (by simp only [i, Interval.around]; omega)
  have parts : below * step + i.value * unit % step = i.value * unit := Nat.div_add_mod' _ _
  by_cases near : i.value * unit % step < unit
  · refine .inl ⟨Nat.pos_of_ne_zero fun none => ?_, Interval.holds_inside (by omega) (by omega)⟩
    rw [none] at parts
    omega
  · have rest : i.value * unit % step < step := Nat.mod_lt _ positive
    exact .inr (Interval.holds_inside (by rw [Nat.succ_mul]; omega) (by rw [Nat.succ_mul]; omega))

theorem onGrid_hits (nonzero : significand ≠ 0)
    (fine : (commonUnits p quarter).1 < 3 * (commonUnits p quarter).2) :
    (onGrid? (.around significand exponent) quarter p).isSome := by
  have fits := @around_holds significand exponent _ _ nonzero (commonUnits_ratio p quarter).1 fine
  simp only at fits
  unfold onGrid?
  simp only
  split
  · rfl
  · rfl
  · rename_i below above
    rcases fits with ⟨positive, held⟩ | held
    · simp [positive, held] at below
    · simp [held] at above
  · split
    · rfl
    · split <;> rfl

theorem commonUnits_whole (p q : Nat) : commonUnits p q = (10 ^ p, 2 ^ q) := by
  simp [commonUnits]

structure Powers : Prop where
  overflow : 10 ^ 308 < Binary64.overflow
  below_last : 2 ^ 55 * 2 ^ 968 < 10 ^ 308
  whole : 2 ^ 53 * 10 ^ 292 < 10 ^ 308
  word : 0x10000000000000000 < 10 ^ 308
  top : 10 ^ 292 < 3 * 2 ^ 969
  step : 10 ^ 308 < 10 ^ 309
  beyond : 0x3FFFFFFFFFFFFD * 2 ^ 970 < 10 ^ 309
  seventeen : 0x3FFFFFFFFFFFFD * 2 ^ 970 < 17976931348623157 * 10 ^ 292
  sixteen : 0x3FFFFFFFFFFFFD * 2 ^ 970 < 1797693134862316 * 10 ^ 293
  under : 10 ^ 308 ≤ 1797693134862315 * 10 ^ 293
  product : 1797693134862315 * 10 ^ 293 < Binary64.overflow
  twice : 1797693134862315 * 10 ^ 293 * (2 ^ 53 + 1) ^ 2 < Binary64.overflow * 2 ^ 106
  last : 17976931348623157 * 4512985939662074 * 2 ^ 918 < Binary64.overflow

theorem powers : Powers := by
  constructor <;> decide +kernel

-- The decimals that can be read: they lie far below overflow, or else they have so few digits that both factors
-- are rounded little.
def Moderate (d : Decimal) : Prop :=
  d.value < 10 ^ (308 : Int) ∨ 292 ≤ d.exponent ∧ d.value ≤ (2 ^ 54 - 3) * 2 ^ (970 : Int)

theorem findSome_first {α : Type} {f : Nat → Option α} {n : Nat} {a : α}
    (found : (List.range n).findSome? f = some a) : ∃ k < n, f k = some a ∧ ∀ j < k, f j = none := by
  induction n with
  | zero => cases found
  | succ n ih =>
    rw [List.range_succ, List.findSome?_append] at found
    cases earlier : (List.range n).findSome? f with
    | some b =>
      rw [earlier] at found
      obtain ⟨k, less, here, before⟩ := ih (earlier.trans found)
      exact ⟨k, Nat.lt_succ_of_lt less, here, before⟩
    | none =>
      rw [earlier] at found
      have before := List.findSome?_eq_none_iff.mp earlier
      exact ⟨n, Nat.lt_succ_self n, by simpa using found, fun j less => before j (List.mem_range.mpr less)⟩

def topGrid (significand : Nat) (exponent : Int) : Int := ((significand.log2 + exponent + 1) * 30103) / 100000 + 1

theorem shortest_cases (significand : Nat) (exponent : Int) :
    let grid := fun k : Nat =>
      onGrid? (.around significand exponent) (exponent - 2) (topGrid significand exponent - k)
    (∃ k < 20, grid k = some (shortest significand exponent) ∧ ∀ j < k, grid j = none) ∨
      shortest significand exponent = ⟨significand, exponent⟩ ∧ ∀ k < 20, grid k = none := by
  intro grid
  have same : shortest significand exponent = ((List.range 20).findSome? grid).getD ⟨significand, exponent⟩ := by
    rw [shortest, List.findSome?_map]
    rfl
  cases found : (List.range 20).findSome? grid with
  | some d =>
    rw [found] at same
    exact .inl (same ▸ findSome_first found)
  | none =>
    rw [found] at same
    exact .inr ⟨same, fun k less => List.findSome?_eq_none_iff.mp found k (List.mem_range.mpr less)⟩

theorem normal_nonzero (low : Binary64.leastNormal ≤ significand) : significand ≠ 0 :=
  (Nat.lt_of_lt_of_le (by decide) low).ne'

theorem normal_log2 (low : Binary64.leastNormal ≤ significand) (high : significand < 2 * Binary64.leastNormal) :
    significand.log2 = 52 :=
  (Nat.log2_eq_iff (normal_nonzero low)).mpr ⟨low, high⟩

theorem last_grid (low : Binary64.leastNormal ≤ significand) (high : significand < 2 * Binary64.leastNormal)
    (large : 292 < exponent) (finite : exponent ≤ 971) :
    (onGrid? (.around significand exponent) (exponent - 2) (topGrid significand exponent - (19 : Nat))).isSome := by
  have fine : ∀ e < 972, 292 < e → 10 ^ ((53 + e) * 30103 / 100000 - 18) < 3 * 2 ^ (e - 2) := by
    decide +kernel
  obtain ⟨e, rfl⟩ := Int.eq_ofNat_of_zero_le (show 0 ≤ exponent by omega)
  have grid : topGrid significand e - (19 : Nat) = ((53 + e) * 30103 / 100000 - 18 : Nat) := by
    rw [topGrid, normal_log2 low high]
    omega
  have place : (e : Int) - 2 = (e - 2 : Nat) := by omega
  refine onGrid_hits (normal_nonzero low) ?_
  rw [grid, place, commonUnits_whole]
  exact fine e (by omega) (by omega)

theorem top_grid {k : Nat} (low : Binary64.leastNormal ≤ significand) (high : significand < 2 * Binary64.leastNormal)
    (before : ∀ j < k,
      onGrid? (.around significand 971) (971 - 2) (topGrid significand 971 - (j : Nat)) = none) :
    292 ≤ topGrid significand 971 - k := by
  have top : topGrid significand 971 = 309 := by
    rw [topGrid, normal_log2 low high]
    rfl
  rw [top] at before ⊢
  by_contra late
  have hit : (onGrid? (.around significand 971) ((969 : Nat) : Int) ((292 : Nat) : Int)).isSome :=
    onGrid_hits (normal_nonzero low) (by simpa only [commonUnits_whole] using powers.top)
  exact Option.isSome_iff_ne_none.mp hit (before 17 (by omega))

theorem shortest_moderate (nonzero : significand ≠ 0) (high : significand < 2 * Binary64.leastNormal)
    (finite : exponent ≤ 971) (normal : exponent = -1074 ∨ Binary64.leastNormal ≤ significand)
    (other : exponent = 971 → significand + 1 ≠ 2 * Binary64.leastNormal) :
    0 < (shortest significand exponent).digits ∧ (shortest significand exponent).Moderate := by
  have places : (significand : ℚ) + 1 ≤ 2 ^ 53 := mod_cast high
  rcases shortest_cases significand exponent with ⟨k, few, here, before⟩ | ⟨same, before⟩
  · obtain ⟨on, positive, -⟩ := onGrid_found here
    have bound := onGrid_value here
    rw [show ((Interval.around significand exponent).high : ℚ) = 4 * significand + 2 by simp [Interval.around]] at bound
    refine ⟨positive, ?_⟩
    -- With the last exponent the bound would pass the range, had the largest number not been left out.
    by_cases last : exponent = 971
    · have inside : (significand : ℚ) + 2 ≤ 2 ^ 53 := by
        have other := other last
        rw [Binary64.leastNormal] at high other
        exact_mod_cast (show significand + 2 ≤ 2 ^ 53 by omega)
      subst last
      refine .inr ⟨?_, le_trans bound ?_⟩
      · rw [on]
        exact top_grid (normal.resolve_left (by omega)) high before
      · rw [show (971 : Int) - 2 = 970 - 1 by rfl, zpow_sub_one₀ two_ne_zero]
        have scale : (0 : ℚ) < 2 ^ (970 : Int) := zpow_pos two_pos _
        generalize (2 : ℚ) ^ (970 : Int) = unit at scale ⊢
        calc (4 * significand + 2 : ℚ) * (unit * 2⁻¹) = (2 * significand + 1) * unit := by ring
          _ ≤ (2 ^ 54 - 3) * unit := by
            gcongr
            linarith
    · refine .inl (lt_of_le_of_lt bound ?_)
      calc (4 * significand + 2 : ℚ) * 2 ^ (exponent - 2) ≤ 2 ^ 55 * 2 ^ (968 : Int) := by
            have scale : (2 : ℚ) ^ (exponent - 2) ≤ 2 ^ (968 : Int) := zpow_le_zpow_right₀ one_le_two (by omega)
            gcongr
            linarith
        _ < 10 ^ (308 : Int) := by
            exact_mod_cast powers.below_last
  · rw [same]
    refine ⟨Nat.pos_of_ne_zero nonzero, .inl ?_⟩
    have small : exponent ≤ 292 := by
      by_contra large
      have low := normal.resolve_left (by omega)
      have hit := last_grid low high (by omega) finite
      exact Option.isSome_iff_ne_none.mp hit (before 19 (by decide))
    calc (significand * 10 ^ exponent : ℚ) ≤ 2 ^ 53 * 10 ^ (292 : Int) := by
          have scale : (10 : ℚ) ^ exponent ≤ 10 ^ (292 : Int) := zpow_le_zpow_right₀ (by norm_num) small
          gcongr
          linarith
      _ < 10 ^ (308 : Int) := by
          exact_mod_cast powers.whole

end Decimal
end PluginBridge
