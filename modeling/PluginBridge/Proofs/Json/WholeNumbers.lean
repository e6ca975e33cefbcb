import PluginBridge.Proofs.Json.Values
import PluginBridge.Proofs.Numeric.Naturals
namespace PluginBridge
variable {n : Nat}

namespace Decimal

theorem holds_multiple {low high value unit c : Nat} {closed : Bool} (wide : 4 ≤ unit)
    (exact : value = n * unit) (below : low = value - 1 ∨ low = value - 2) (above : high = value + 2)
    (nonzero : n ≠ 0) : Interval.holds ⟨low, value, high, closed⟩ (c * unit) 1 = decide (c = n) := by
  have positive : unit ≤ n * unit := Nat.le_mul_of_pos_left unit (Nat.pos_of_ne_zero nonzero)
  have apart : c = n ∨ c * unit + unit ≤ n * unit ∨ n * unit + unit ≤ c * unit := by
    rcases Nat.lt_trichotomy c n with less | same | more
    · have step := Nat.mul_le_mul_right unit (Nat.succ_le_of_lt less)
      rw [Nat.succ_mul] at step
      exact .inr (.inl step)
    · exact .inl same
    · have step := Nat.mul_le_mul_right unit (Nat.succ_le_of_lt more)
      rw [Nat.succ_mul] at step
      exact .inr (.inr step)
  have side : c = n → c * unit = n * unit := fun same => same ▸ rfl
  by_cases same : c = n
  · have here := side same
    simp only [Interval.holds, same, decide_true]
    split <;> simp <;> omega
  · simp only [Interval.holds, same, decide_false]
    split <;> simp <;> omega

theorem onGrid_whole (nonzero : n ≠ 0) (small : n.log2 ≤ 52) (p : Nat) :
    onGrid? (.around (n * 2 ^ (52 - n.log2)) ((n.log2 : Int) - 52)) ((n.log2 : Int) - 52 - 2) p =
      if n % 10 ^ p = 0 then some ⟨n / 10 ^ p, p⟩ else none := by
  have grid : 0 < 10 ^ p := Nat.pow_pos (by decide)
  have wide : 4 ≤ 2 ^ (54 - n.log2) := by
    calc 4 = 2 ^ 2 := rfl
      _ ≤ 2 ^ (54 - n.log2) := Nat.pow_le_pow_right (by decide) (by omega)
  have quarters : 4 * (n * 2 ^ (52 - n.log2)) = n * 2 ^ (54 - n.log2) := by
    have four : 2 ^ (54 - n.log2) = 4 * 2 ^ (52 - n.log2) := by
      rw [show 54 - n.log2 = 52 - n.log2 + 2 by omega, Nat.pow_add]
      omega
    rw [four, Nat.mul_left_comm]
  have units : commonUnits p ((n.log2 : Int) - 52 - 2) = (10 ^ p * 2 ^ (54 - n.log2), 1) := by
    have up : (((n.log2 : Int) - 52 - 2)).toNat = 0 := by omega
    have down : (-((n.log2 : Int) - 52 - 2)).toNat = 54 - n.log2 := by omega
    have fraction : (-(p : Int)).toNat = 0 := by omega
    simp only [commonUnits, up, down, fraction, Int.toNat_natCast, Nat.pow_eq, Nat.pow_zero, Nat.mul_one]
  have quotient : n * 2 ^ (54 - n.log2) / (10 ^ p * 2 ^ (54 - n.log2)) = n / 10 ^ p :=
    Nat.mul_div_mul_right _ _ (Nat.two_pow_pos _)
  -- The interval reaches half a place to either side, so the only whole number in it is `n`.
  have holds : ∀ d, Interval.holds (.around (n * 2 ^ (52 - n.log2)) ((n.log2 : Int) - 52))
      (d * (10 ^ p * 2 ^ (54 - n.log2))) 1 = decide (d * 10 ^ p = n) := by
    intro d
    rw [← Nat.mul_assoc, Interval.around, quarters]
    refine holds_multiple wide rfl ?_ rfl nonzero
    split
    · exact .inl rfl
    · exact .inr rfl
  have value : (Interval.around (n * 2 ^ (52 - n.log2)) ((n.log2 : Int) - 52)).value * 1 =
      n * 2 ^ (54 - n.log2) := by
    rw [Nat.mul_one, ← quarters]
    rfl
  have above : ¬ (n / 10 ^ p + 1) * 10 ^ p = n := by
    have more := Nat.lt_div_mul_add grid (a := n)
    rw [Nat.add_mul]
    omega
  have below : n / 10 ^ p * 10 ^ p = n ↔ n % 10 ^ p = 0 := by
    have parts := Nat.div_add_mod' n (10 ^ p)
    omega
  have whole : n % 10 ^ p = 0 → 0 < n / 10 ^ p := by
    intro divides
    have parts := Nat.div_add_mod' n (10 ^ p)
    refine Nat.pos_of_ne_zero fun none => ?_
    rw [none] at parts
    omega
  unfold onGrid?
  simp only [units, value, quotient, holds, above, below]
  by_cases divides : n % 10 ^ p = 0
  · simp [divides, whole divides]
  · simp [divides]

theorem shortest_whole (nonzero : n ≠ 0) (small : n < 0x2000000000000) :
    ∃ p : Nat, n % 10 ^ p = 0 ∧
      shortest (n * 2 ^ (52 - n.log2)) ((n.log2 : Int) - 52) = ⟨n / 10 ^ p, p⟩ := by
  have fits : n.log2 < 49 := (Nat.log2_lt nonzero).mpr small
  have places : (n * 2 ^ (52 - n.log2)).log2 = 52 := by
    refine (Nat.log2_eq_iff ?_).mpr ⟨?_, ?_⟩
    · exact Nat.mul_ne_zero nonzero (Nat.two_pow_pos _).ne'
    · exact Binary64.significand_low nonzero (by omega)
    · exact Binary64.significand_high (by omega)
  obtain ⟨top, bound, start⟩ : ∃ top : Nat, top ≤ 19 ∧
      (((n * 2 ^ (52 - n.log2)).log2 + ((n.log2 : Int) - 52) + 1) * 30103) / 100000 + 1 = top := by
    refine ⟨((n.log2 + 1) * 30103) / 100000 + 1, by omega, ?_⟩
    rw [places]
    omega
  have split : List.range 20 = List.range (top + 1) ++ (List.range (19 - top)).map (top + 1 + ·) := by
    rw [← List.range_add]
    congr 1
    omega
  have whole := onGrid_whole nonzero (show n.log2 ≤ 52 by omega)
  unfold shortest
  simp only [start, split, List.map_append, List.findSome?_append]
  generalize onGrid? (.around (n * 2 ^ (52 - n.log2)) ((n.log2 : Int) - 52)) ((n.log2 : Int) - 52 - 2) =
    grid? at whole ⊢
  have above : ∀ k ∈ List.range (top + 1), (top : Int) - (k : Int) = ((top - k : Nat) : Int) := by
    intro k among
    rw [List.mem_range] at among
    omega
  -- On the grid of ones lies every whole number, so the search has ended there.
  have reached : (((List.range (top + 1)).map fun k : Nat => (top : Int) - (k : Int)).findSome?
      grid?).isSome := by
    refine List.findSome?_isSome_iff.mpr ⟨0, List.mem_map.mpr ⟨top, ?_, ?_⟩, ?_⟩
    · exact List.mem_range.mpr (Nat.lt_succ_self top)
    · exact Int.sub_self _
    · have units := whole 0
      rw [Nat.pow_zero, if_pos (Nat.mod_one n)] at units
      exact congrArg Option.isSome units
  obtain ⟨found, first⟩ := Option.isSome_iff_exists.mp reached
  obtain ⟨p, among, here⟩ := List.exists_of_findSome?_eq_some first
  obtain ⟨k, inside, rfl⟩ := List.mem_map.mp among
  rw [above k inside, whole] at here
  split at here
  · rename_i divides
    refine ⟨top - k, divides, ?_⟩
    cases here
    rw [first]
    rfl
  · cases here

end Decimal

namespace Json

theorem toDigits_scaled {d : Nat} (positive : 0 < d) (p : Nat) :
    Nat.toDigits 10 (d * 10 ^ p) = Nat.toDigits 10 d ++ List.replicate p '0' := by
  induction p with
  | zero => simp
  | succ p ih =>
    have zero : Nat.toDigits 10 0 = ['0'] := rfl
    have scaled : 0 < d * 10 ^ p := Nat.mul_pos positive (Nat.pow_pos (by decide))
    have step := Nat.toDigits_append_toDigits (b := 10) (d := 0) (by decide) scaled (by decide)
    rw [Nat.add_zero, Nat.mul_left_comm, ← Nat.pow_succ'] at step
    rw [← step, ih, zero, List.append_assoc, List.replicate_succ']

theorem decimalChars_whole {p : Nat} (nonzero : n ≠ 0) (small : n < 10 ^ 15) (divides : n % 10 ^ p = 0) :
    decimalChars ⟨n / 10 ^ p, p⟩ = Nat.toDigits 10 n ++ ['.', '0'] := by
  have parts : n / 10 ^ p * 10 ^ p = n := Nat.div_mul_cancel (Nat.dvd_of_mod_eq_zero divides)
  have positive : 0 < n / 10 ^ p := by
    refine Nat.pos_of_ne_zero fun none => nonzero ?_
    rw [← parts, none, Nat.zero_mul]
  have digits := toDigits_scaled positive p
  rw [parts] at digits
  have length := (Nat.length_toDigits_le_iff (b := 10) (by decide) (by decide)).mpr small
  rw [digits, List.length_append, List.length_replicate] at length
  have first : 0 < (Nat.toDigits 10 (n / 10 ^ p)).length := List.length_pos_iff.mpr Nat.toDigits_ne_nil
  have middle : ¬ (((Nat.toDigits 10 (n / 10 ^ p)).length : Int) - 1 + p < -5 ∨
      16 ≤ ((Nat.toDigits 10 (n / 10 ^ p)).length : Int) - 1 + p) := by omega
  have upward : (0 : Int) ≤ p := by omega
  simp only [decimalChars, if_neg middle, if_pos upward, Int.toNat_natCast, digits]

theorem floatChars_whole (nonzero : n ≠ 0) (small : n < 0x2000000000000) :
    floatChars (.ofNat n) = Nat.toDigits 10 n ++ ['.', '0'] := by
  have fits : n.log2 < 49 := (Nat.log2_lt nonzero).mpr small
  have meaning := (Binary64.ofNat_meaning nonzero (by omega)).2
  have scaled : n * 2 ^ (52 - n.log2) ≠ 0 := Nat.mul_ne_zero nonzero (Nat.two_pow_pos _).ne'
  obtain ⟨p, divides, shortest⟩ := Decimal.shortest_whole nonzero small
  have written := decimalChars_whole nonzero (by omega) divides
  simp only [floatChars, meaning, if_neg scaled, shortest, written, Bool.false_eq_true, if_false]

theorem literal_whole (n : Nat) : Parser.literal (Nat.toDigits 10 n ++ ['.', '0']) =
    some (⟨false, Nat.toDigits 10 n, some ['0'], none⟩, []) := by
  have zero : Parser.Digits ['0'] := .toDigits 0
  simpa [Parser.Literal.written, Parser.placeChars, Parser.powerChars] using
    Parser.literal_written (l := ⟨false, Nat.toDigits 10 n, some ['0'], none⟩)
      ⟨.toDigits n, Parser.toDigits_allowed n, fun digits same => Option.some.inj same ▸ zero,
        fun _ given => by cases given⟩

theorem number_whole (nonzero : n ≠ 0) (small : n < 0x2000000000000) :
    Parser.number .strict (Nat.toDigits 10 n ++ ['.', '0']) = some (.float (.ofNat n), []) := by
  have shifted : Parser.significand n ['0'] = (n * 10, 1) := by
    have digit : Parser.digitValue '0' = 0 := rfl
    simp only [Parser.significand, digit, Nat.add_zero]
    rw [if_neg (by omega)]
  have bits : (n * 10).log2 ≤ 52 :=
    Nat.le_of_lt_succ ((Nat.log2_lt (by omega)).mpr (by omega))
  have back : Parser.divideByPower (.ofNat (n * 10)) 1 = .ofNat n := by
    rw [Parser.divideByPower, if_pos (by decide)]
    exact Binary64.ofNat_divFinite nonzero (by decide) bits
  have scaled : Parser.scaled? (n * 10) (-1) = some (.ofNat n) := by
    rw [Parser.scaled?, if_pos (by decide)]
    exact congrArg Option.some back
  simp only [Parser.number, literal_whole, Option.bind_eq_bind, Option.bind_some]
  have read : Parser.Literal.number? ⟨false, Nat.toDigits 10 n, some ['0'], none⟩ =
      some (.float (.ofNat n)) := by
    simp [Parser.Literal.number?, Parser.Literal.float?,
      Parser.significand_toDigits (show n < 0x10000000000000000 by omega), shifted, scaled]
  rw [read]

end Json

theorem Binary64.ofNat_survives (small : n < 0x2000000000000) : (ofNat n).SurvivesText := by
  by_cases zero : n = 0
  · subst zero
    have text : (Json.number (.float (ofNat 0))).render = "0.0" := by decide +kernel
    rw [SurvivesText, text]
    with_unfolding_all rfl
  · have read := Json.number_whole zero small
    rw [← Json.floatChars_whole zero small] at read
    exact (Json.number_parsed (ofNat_finite (by omega)) read).2

end PluginBridge
