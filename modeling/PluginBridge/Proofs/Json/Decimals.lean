import PluginBridge.Proofs.Json.Values
import PluginBridge.Proofs.Numeric.Shortest
namespace PluginBridge
open Binary64 (overflow)
open Decimal (powers)

namespace Json.Parser
variable {digits n : Nat} {exponent : Int} {negative : Bool}

theorem powerOfTen_size (small : n ≤ 308) :
    (powerOfTen n).isFinite = true ∧ (powerOfTen n).size ≤ 10 ^ n * (1 + 1 / 2 ^ 53) := by
  have less : 10 ^ n ≤ 10 ^ 308 := pow_le_pow_right₀ (by decide) small
  have near := Binary64.ofNat_size (Nat.pow_pos (n := n) (show 0 < 10 by decide)).ne'
    (Nat.lt_of_le_of_lt less powers.overflow)
  push_cast at near
  exact near

-- Both factors are rounded first, so that the product may lie above the number by twice as much.
theorem product_below (some : digits ≠ 0) (small : n ≤ 308) (below : digits * 10 ^ n ≤ 1797693134862315 * 10 ^ 293) :
    ((Binary64.ofNat digits).mulFinite (powerOfTen n)).isFinite = true := by
  obtain ⟨power, near⟩ := powerOfTen_size small
  have twice : digits * 10 ^ n * (2 ^ 53 + 1) ^ 2 < overflow * 2 ^ 106 :=
    Nat.lt_of_le_of_lt (Nat.mul_le_mul_right _ below) powers.twice
  have few : digits < overflow :=
    Nat.lt_of_le_of_lt (Nat.le_mul_of_pos_right _ (Nat.pow_pos (by decide))) (Nat.lt_of_le_of_lt below powers.product)
  obtain ⟨finite, close⟩ := Binary64.ofNat_size some few
  have nonneg := Binary64.size_nonneg (powerOfTen n)
  refine Binary64.mulFinite_finite finite power (lt_of_le_of_lt ?_ (Binary64.ratio_overflow twice))
  calc (Binary64.ofNat digits).size * (powerOfTen n).size
      ≤ digits * (1 + 1 / 2 ^ 53) * (10 ^ n * (1 + 1 / 2 ^ 53)) := by gcongr
    _ = _ := by
      push_cast
      field_simp
      norm_num

-- At the largest grid the power lies above its decimal, so that it counts how near the digits stay.
theorem product_last (some : digits ≠ 0) (few : digits ≤ 17976931348623156) :
    ((Binary64.ofNat digits).mulFinite (powerOfTen 292)).isFinite = true := by
  have meant : (powerOfTen 292).meaning = .finite false 4512985939662074 918 := by decide +kernel
  have power : (powerOfTen 292).size = 4512985939662074 * 2 ^ (918 : Int) := by
    rw [Binary64.size, meant]
    rfl
  have short : digits < 2 ^ 54 := by omega
  have near := Binary64.ofNat_size_near some short
  have small : digits < overflow := short.trans Binary64.overflow_between.1
  refine Binary64.mulFinite_finite (Binary64.ofNat_size some small).1 (powerOfTen_size (by decide)).1 ?_
  calc (Binary64.ofNat digits).size * (powerOfTen 292).size
      ≤ 17976931348623157 * (4512985939662074 * 2 ^ (918 : Int)) := by
        have few : (digits : ℚ) ≤ 17976931348623156 := mod_cast few
        rw [power]
        gcongr
        linarith
    _ < overflow := by
        rw [← mul_assoc]
        exact_mod_cast powers.last

theorem moderate_whole (moderate : Decimal.Moderate ⟨digits, n⟩) :
    digits * 10 ^ n < 10 ^ 308 ∨ 292 ≤ n ∧ digits * 10 ^ n ≤ 0x3FFFFFFFFFFFFD * 2 ^ 970 := by
  refine moderate.imp (fun below => ?_) fun ⟨large, below⟩ => ⟨Int.ofNat_le.mp large, ?_⟩
  · simp only [Decimal.value, zpow_natCast] at below
    exact_mod_cast below
  · simp only [Decimal.value, zpow_natCast] at below
    rw [show (2 ^ 54 - 3 : ℚ) = 0x3FFFFFFFFFFFFD by norm_num] at below
    exact_mod_cast below

theorem product_moderate (some : digits ≠ 0)
    (moderate : digits * 10 ^ n < 10 ^ 308 ∨ 292 ≤ n ∧ digits * 10 ^ n ≤ 0x3FFFFFFFFFFFFD * 2 ^ 970) :
    n ≤ 308 ∧ ((Binary64.ofNat digits).mulFinite (powerOfTen n)).isFinite = true := by
  have small : n ≤ 308 := by
    have least : 10 ^ n ≤ digits * 10 ^ n := Nat.le_mul_of_pos_left _ (Nat.pos_of_ne_zero some)
    have less : 10 ^ n < 10 ^ 309 := by
      rcases moderate with below | ⟨-, below⟩
      · exact (least.trans_lt below).trans powers.step
      · exact (least.trans below).trans_lt powers.beyond
    by_contra large
    have more : 10 ^ 309 ≤ 10 ^ n := pow_le_pow_right₀ (by decide) (Nat.lt_of_not_le large)
    exact Nat.lt_irrefl _ (less.trans_le more)
  refine ⟨small, ?_⟩
  rcases moderate with below | ⟨large, below⟩
  · exact product_below some small (below.le.trans powers.under)
  · -- Sixteen digits are left in front of 293 zeros, and seventeen in front of 292.
    rcases large.eq_or_lt with rfl | larger
    · refine product_last some ?_
      by_contra more
      have least : 17976931348623157 * 10 ^ 292 ≤ digits * 10 ^ 292 := Nat.mul_le_mul_right _ (Nat.lt_of_not_le more)
      exact absurd below (powers.seventeen.trans_le least).not_ge
    · obtain ⟨k, rfl⟩ : ∃ k, n = k + 293 := ⟨n - 293, by omega⟩
      have split : ∀ m, digits * 10 ^ (k + m) = digits * 10 ^ k * 10 ^ m := fun m => by rw [Nat.pow_add, Nat.mul_assoc]
      rw [split] at below
      have few : digits * 10 ^ k ≤ 1797693134862315 := by
        by_contra more
        have least : 1797693134862316 * 10 ^ 293 ≤ digits * 10 ^ k * 10 ^ 293 :=
          Nat.mul_le_mul_right _ (Nat.lt_of_not_le more)
        exact absurd below (powers.sixteen.trans_le least).not_ge
      have most : digits * 10 ^ k * 10 ^ 293 ≤ 1797693134862315 * 10 ^ 293 := Nat.mul_le_mul_right _ few
      rw [← split] at most
      exact product_below some small most

theorem scaled_moderate (moderate : Decimal.Moderate ⟨digits, exponent⟩) : (scaled? digits exponent).isSome := by
  unfold scaled?
  simp only
  split
  · rfl
  rename_i whole
  obtain ⟨n, rfl⟩ := Int.eq_ofNat_of_zero_le (Int.not_lt.mp whole)
  by_cases none : digits = 0
  · subst none
    split
    · rfl
    · rename_i small
      have power := powerOfTen_size (show n ≤ 308 by omega)
      have zero : (Binary64.ofNat 0).size = 0 := by
        have meant : (Binary64.ofNat 0).meaning = .finite false 0 (-1074) := by decide
        simp [Binary64.size, meant]
      have finite := Binary64.mulFinite_finite (x := .ofNat 0) (by decide) power.1 (by
        rw [zero, zero_mul]
        exact_mod_cast (Nat.zero_lt_of_lt Binary64.overflow_between.1))
      rw [Int.toNat_natCast, if_pos finite]
      rfl
  · obtain ⟨small, finite⟩ := product_moderate none (moderate_whole moderate)
    rw [if_neg (by omega), Int.toNat_natCast, if_pos finite]
    rfl

def Literal.ofDecimal (negative : Bool) (d : Decimal) : Literal :=
  let digits := Nat.toDigits 10 d.digits
  let leading : Int := (digits.length : Int) - 1 + d.exponent
  if leading < -5 ∨ 16 ≤ leading then
    ⟨negative, digits.take 1, if (digits.drop 1).isEmpty then none else some (digits.drop 1),
      some (decide (leading < 0), Nat.toDigits 10 leading.natAbs)⟩
  else if 0 ≤ d.exponent then ⟨negative, digits ++ List.replicate d.exponent.toNat '0', some ['0'], none⟩
  else if 0 ≤ leading then
    ⟨negative, digits.take (leading.toNat + 1), some (digits.drop (leading.toNat + 1)), none⟩
  else ⟨negative, ['0'], some (List.replicate (-leading - 1).toNat '0' ++ digits), none⟩

theorem ofDecimal_written (negative : Bool) (d : Decimal) :
    (Literal.ofDecimal negative d).written = (if negative then ['-'] else []) ++ decimalChars d := by
  unfold Literal.ofDecimal decimalChars
  simp only
  split
  · generalize (Nat.toDigits 10 d.digits).drop 1 = rest
    cases rest <;> simp [Literal.written, placeChars, powerChars]
  · split
    · simp [Literal.written, placeChars, powerChars]
    · split <;> simp [Literal.written, placeChars, powerChars]

theorem ofDecimal_proper {d : Decimal} (positive : 0 < d.digits) : (Literal.ofDecimal negative d).Proper := by
  have digits := Digits.toDigits d.digits
  have first : (Nat.toDigits 10 d.digits).head? ≠ some '0' := toDigits_head positive
  have length : 0 < (Nat.toDigits 10 d.digits).length := Nat.length_toDigits_pos
  have zeros : ∀ n, ∀ c ∈ List.replicate n '0', c.isDigit = true :=
    fun n c among => (List.mem_replicate.mp among).2 ▸ rfl
  unfold Literal.ofDecimal
  simp only
  -- The four forms: with an exponent, without a fraction, with the point inside, and below one.
  split
  · refine ⟨digits.take (by decide), fun ⟨_, long⟩ => ?_, ?_, ?_⟩
    · rw [List.length_take] at long
      omega
    · intro places same
      split at same
      · cases same
      · rename_i some
        cases same
        refine digits.drop (Nat.lt_of_not_le fun short => some ?_)
        rw [List.drop_eq_nil_iff.mpr short]
        rfl
    · intro power same
      cases same
      exact .toDigits _
  · split
    · refine ⟨digits.append (zeros _), fun ⟨zero, _⟩ => first ?_, fun places same => ?_, nofun⟩
      · rwa [List.head?_append_of_ne_nil _ digits.1] at zero
      · cases same
        exact .toDigits 0
    · split
      · refine ⟨digits.take (Nat.succ_pos _), fun ⟨zero, _⟩ => first ?_, fun places same => ?_, nofun⟩
        · rwa [List.head?_take] at zero
        · cases same
          exact digits.drop (by omega)
      · refine ⟨.toDigits 0, fun ⟨_, long⟩ => Nat.lt_irrefl 1 long, fun places same => ?_, nofun⟩
        cases same
        refine ⟨List.append_ne_nil_of_right_ne_nil _ digits.1, fun c among => ?_⟩
        exact (List.mem_append.mp among).elim (zeros _ c) (digits.2 c)

-- Digits that no longer fit are dropped, so that less is read than stands there.
theorem significand_lower (start : Nat) (text : List Char) : (significand start text).2 ≤ text.length ∧
    (significand start text).1 * 10 ^ (text.length - (significand start text).2) ≤ Nat.ofDigitChars 10 text start := by
  induction text generalizing start with
  | nil => simp [significand]
  | cons c text ih =>
    have next : start * 10 + digitValue c = 10 * start + (c.toNat - '0'.toNat) := by
      rw [digitValue, Nat.mul_comm]
    rw [significand, Nat.ofDigitChars_cons]
    simp only [next]
    split
    · refine ⟨Nat.zero_le _, ?_⟩
      rw [Nat.ofDigitChars_eq_ofDigitChars_zero, Nat.sub_zero, List.length_cons, Nat.pow_succ, Nat.mul_comm start]
      calc 10 ^ text.length * 10 * start = 10 ^ text.length * (10 * start) := Nat.mul_assoc _ _ _
        _ ≤ 10 ^ text.length * (10 * start + (c.toNat - '0'.toNat)) := Nat.mul_le_mul_left _ (Nat.le_add_right _ _)
        _ ≤ _ := Nat.le_add_right _ _
    · obtain ⟨short, lower⟩ := ih (10 * start + (c.toNat - '0'.toNat))
      refine ⟨Nat.succ_le_succ short, ?_⟩
      rwa [List.length_cons, Nat.add_sub_add_right]

theorem significand_small {start : Nat} (small : start < 0x10000000000000000) (text : List Char) :
    (significand start text).1 < 0x10000000000000000 := by
  induction text generalizing start with
  | nil => exact small
  | cons c text ih =>
    rw [significand]
    simp only
    split
    · exact small
    · exact ih (Nat.lt_of_not_le ‹_›)

theorem moderate_small (small : digits < 0x10000000000000000) (low : exponent ≤ 0) :
    Decimal.Moderate ⟨digits, exponent⟩ := by
  refine .inl ?_
  have few : digits < 10 ^ 308 := small.trans powers.word
  calc (digits * 10 ^ exponent : ℚ) ≤ digits * 1 := by
        have shrinks : (10 : ℚ) ^ exponent ≤ 1 := zpow_le_one_of_nonpos₀ (by norm_num) low
        gcongr
    _ < 10 ^ (308 : Int) := by
        rw [mul_one]
        exact_mod_cast few

theorem float_read {l : Literal} (fits : Nat.ofDigitChars 10 l.whole 0 < 0x10000000000000000)
    (up : ∀ power, l.exponent = some (false, power) →
      let read := significand (Nat.ofDigitChars 10 l.whole 0) (l.fraction.getD [])
      Nat.ofDigitChars 10 power 0 < 0x80000000 ∧
        Decimal.Moderate ⟨read.1, (Nat.ofDigitChars 10 power 0 : Int) - read.2⟩) : l.float?.isSome := by
  obtain ⟨negative, whole, fraction, exponent⟩ := l
  have small := significand_small fits (fraction.getD [])
  have shifted : ∀ power : List Char,
      power.foldl (fun n c => n * 10 + digitValue c) 0 = Nat.ofDigitChars 10 power 0 := by
    intro power
    rw [Nat.ofDigitChars_eq_foldl]
    congr 1
    funext n c
    rw [digitValue, Nat.mul_comm]
  unfold Literal.float?
  simp only [significand_fits fits, Nat.sub_self, shifted] at small up ⊢
  generalize significand (Nat.ofDigitChars 10 whole 0) (fraction.getD []) = read at small up ⊢
  obtain ⟨value, after⟩ := read
  have down : ∀ place : Int, place ≤ 0 → (scaled? value place).isSome :=
    fun place low => scaled_moderate (moderate_small small low)
  have done : ∀ {size? : Option Binary64}, size?.isSome →
      (size?.bind fun size => some (if negative then Binary64.ofMagnitude true size.magnitude else size)).isSome := by
    intro size? some
    obtain ⟨size, rfl⟩ := Option.isSome_iff_exists.mp some
    rfl
  -- Only a positive exponent can lead beyond the largest number.
  cases exponent with
  | none => exact done (down _ (by omega))
  | some power =>
    obtain ⟨downward, power⟩ := power
    cases downward with
    | true =>
      simp only
      split
      · simp
      · exact done (down _ (by simp only [if_true]; omega))
    | false =>
      obtain ⟨few, moderate⟩ := up power rfl
      have place : (0 : Int) - after + Nat.ofDigitChars 10 power 0 = Nat.ofDigitChars 10 power 0 - after := by omega
      simp only [if_neg (Nat.not_le.mpr few)]
      exact done (scaled_moderate (place ▸ moderate))

theorem ofDigitChars_lt {text : List Char} (digits : ∀ c ∈ text, c.isDigit = true) (start : Nat) :
    Nat.ofDigitChars 10 text start < (start + 1) * 10 ^ text.length := by
  induction text generalizing start with
  | nil => simp
  | cons c text ih =>
    have digit : c.toNat - '0'.toNat ≤ 9 := by
      have inside := digits c List.mem_cons_self
      rw [Char.isDigit, Bool.and_eq_true, decide_eq_true_eq, decide_eq_true_eq] at inside
      have high : c.toNat ≤ 57 := inside.2
      have zero : '0'.toNat = 48 := rfl
      omega
    rw [Nat.ofDigitChars_cons, List.length_cons, Nat.pow_succ', ← Nat.mul_assoc]
    refine (ih (fun d among => digits d (List.mem_cons_of_mem _ among)) _).trans_le (Nat.mul_le_mul_right _ ?_)
    omega

theorem ofDecimal_short (negative : Bool) (d : Decimal) : (Literal.ofDecimal negative d).whole.length ≤ 16 := by
  unfold Literal.ofDecimal
  simp only
  split
  · simp only [List.length_take]
    omega
  · split
    · simp only [List.length_append, List.length_replicate]
      omega
    · split
      · simp only [List.length_take]
        omega
      · exact show 1 ≤ 16 by decide

theorem moderate_of_le {d other : Decimal} (moderate : d.Moderate) (above : d.exponent ≤ other.exponent)
    (below : other.value ≤ d.value) : other.Moderate :=
  moderate.imp below.trans_lt fun ⟨large, bound⟩ => ⟨large.trans above, below.trans bound⟩

theorem leading_small {d : Decimal} (positive : 0 < d.digits) (moderate : d.Moderate) :
    ((Nat.toDigits 10 d.digits).length : Int) - 1 + d.exponent < 309 := by
  have length : 0 < (Nat.toDigits 10 d.digits).length := Nat.length_toDigits_pos
  have least : 10 ^ ((Nat.toDigits 10 d.digits).length - 1) ≤ d.digits := by
    by_contra less
    by_cases one : (Nat.toDigits 10 d.digits).length = 1
    · rw [one] at less
      omega
    · have shorter := (Nat.length_toDigits_le_iff (b := 10) (by decide) (show 0 < (Nat.toDigits 10 d.digits).length - 1
        by omega)).mpr (Nat.lt_of_not_le less)
      omega
  have below : d.value < 10 ^ (309 : Int) := by
    rcases moderate with bound | ⟨-, bound⟩
    · exact bound.trans (by exact_mod_cast powers.step)
    · rw [show (2 ^ 54 - 3 : ℚ) = 0x3FFFFFFFFFFFFD by norm_num] at bound
      exact bound.trans_lt (by exact_mod_cast powers.beyond)
  refine (zpow_lt_zpow_iff_right₀ (show (1 : ℚ) < 10 by norm_num)).mp (lt_of_le_of_lt ?_ below)
  calc (10 : ℚ) ^ (((Nat.toDigits 10 d.digits).length : Int) - 1 + d.exponent)
      = (10 ^ ((Nat.toDigits 10 d.digits).length - 1) : Nat) * 10 ^ d.exponent := by
        rw [zpow_add₀ (by norm_num), ← Int.natCast_pred_of_pos length, zpow_natCast, Nat.cast_pow, Nat.cast_ofNat]
    _ ≤ d.digits * 10 ^ d.exponent := by gcongr

theorem ofDecimal_read {d : Decimal} (positive : 0 < d.digits) (moderate : d.Moderate) :
    (Literal.ofDecimal negative d).float?.isSome := by
  have fits : Nat.ofDigitChars 10 (Literal.ofDecimal negative d).whole 0 < 0x10000000000000000 := by
    have below := ofDigitChars_lt (@ofDecimal_proper negative d positive).whole.2 0
    have length := Nat.pow_le_pow_right (show 0 < 10 by decide) (ofDecimal_short negative d)
    omega
  refine float_read fits ?_
  have leading := leading_small positive moderate
  have length : 0 < (Nat.toDigits 10 d.digits).length := Nat.length_toDigits_pos
  unfold Literal.ofDecimal
  simp only
  split
  · intro power same
    obtain ⟨upward, rfl⟩ := Prod.mk.inj (Option.some.inj same)
    have upward := Int.not_lt.mp (of_decide_eq_false upward)
    have shown : (if ((Nat.toDigits 10 d.digits).drop 1).isEmpty then none
        else some ((Nat.toDigits 10 d.digits).drop 1)).getD [] = (Nat.toDigits 10 d.digits).drop 1 := by
      cases (Nat.toDigits 10 d.digits).drop 1 <;> rfl
    have whole : Nat.ofDigitChars 10 ((Nat.toDigits 10 d.digits).drop 1)
        (Nat.ofDigitChars 10 ((Nat.toDigits 10 d.digits).take 1) 0) = d.digits := by
      rw [← Nat.ofDigitChars_append, List.take_append_drop, Nat.ofDigitChars_ten_toDigits]
    obtain ⟨short, lower⟩ := significand_lower (Nat.ofDigitChars 10 ((Nat.toDigits 10 d.digits).take 1) 0)
      ((Nat.toDigits 10 d.digits).drop 1)
    rw [whole] at lower
    simp only [shown, Nat.ofDigitChars_ten_toDigits]
    generalize significand (Nat.ofDigitChars 10 ((Nat.toDigits 10 d.digits).take 1) 0)
      ((Nat.toDigits 10 d.digits).drop 1) = read at short lower ⊢
    rw [List.length_drop] at short lower
    refine ⟨by omega, moderate_of_le moderate ?_ ?_⟩
    · simp only
      omega
    · have place : (((Nat.toDigits 10 d.digits).length : Int) - 1 + d.exponent).natAbs - (read.2 : Int) =
          ((Nat.toDigits 10 d.digits).length - 1 - read.2 : Nat) + d.exponent := by omega
      have lower : (read.1 * 10 ^ ((Nat.toDigits 10 d.digits).length - 1 - read.2) : ℚ) ≤ d.digits := mod_cast lower
      calc (read.1 * 10 ^ ((((Nat.toDigits 10 d.digits).length : Int) - 1 + d.exponent).natAbs - (read.2 : Int)) : ℚ)
          = read.1 * 10 ^ ((Nat.toDigits 10 d.digits).length - 1 - read.2) * 10 ^ d.exponent := by
            rw [place, zpow_add₀ (by norm_num), zpow_natCast, mul_assoc]
        _ ≤ d.digits * 10 ^ d.exponent := by gcongr
  · split
    · nofun
    · split
      · nofun
      · nofun

theorem number_written {l : Literal} (proper : l.Proper) (broken : l.fraction.isSome ∨ l.exponent.isSome)
    (read : l.float?.isSome) : ∃ n, number .strict l.written = some (n, []) := by
  obtain ⟨x, found⟩ := Option.isSome_iff_exists.mp read
  have taken : l.number? = some (.float x) := by
    unfold Literal.number?
    simp only
    rw [if_pos (broken.elim .inl fun some => .inr (.inl some)), found]
    rfl
  exact ⟨.float x, by simp [number, literal_written proper, taken]⟩

theorem ofDecimal_number {d : Decimal} (positive : 0 < d.digits) (moderate : d.Moderate) (negative : Bool) :
    ∃ n, number .strict ((if negative then ['-'] else []) ++ decimalChars d) = some (n, []) := by
  rw [← ofDecimal_written]
  refine number_written (ofDecimal_proper positive) ?_ (ofDecimal_read positive moderate)
  unfold Literal.ofDecimal
  simp only
  split
  · exact .inr rfl
  · split
    · exact .inl rfl
    · split <;> exact .inl rfl

end Json.Parser

theorem Json.floatChars_read {x : Binary64} (finite : x.isFinite = true) :
    ∃ n, Parser.number .strict (floatChars x) = some (n, []) := by
  obtain ⟨negative, m, e, meant⟩ := Binary64.meaning_finite finite
  obtain ⟨high, last, normal⟩ := Binary64.meaning_bounds meant
  have shown : floatChars x = (if negative then ['-'] else []) ++
      if m = 0 then ['0', '.', '0'] else decimalChars (Decimal.shortest m e) := by
    cases negative <;> simp [floatChars, meant]
  have computed : ∀ {text : List Char}, ((Parser.number .strict text).any fun read => read.2.isEmpty) = true →
      ∃ n, Parser.number .strict text = some (n, []) := by
    intro text checked
    obtain ⟨⟨n, rest⟩, read, ended⟩ := (Option.any_eq_true _ _).mp checked
    obtain rfl : rest = [] := List.isEmpty_iff.mp ended
    exact ⟨n, read⟩
  rw [shown]
  by_cases zero : m = 0
  · rw [if_pos zero]
    cases negative <;> exact computed (by decide +kernel)
  rw [if_neg zero]
  by_cases largest : e = 971 ∧ m + 1 = 2 * Binary64.leastNormal
  · obtain ⟨rfl, same⟩ := largest
    obtain rfl : m = 0x1FFFFFFFFFFFFF := by
      rw [Binary64.leastNormal] at same
      omega
    cases negative <;> exact computed (by decide +kernel)
  · obtain ⟨positive, moderate⟩ := Decimal.shortest_moderate zero high last normal fun top same => largest ⟨top, same⟩
    exact Parser.ofDecimal_number positive moderate negative

-- With one more in its last digit the largest number would be refused.
example : Json.parse? "1.7976931348623158e+308" = none := by decide +kernel

end PluginBridge
