import Mathlib.Data.List.Basic
import Mathlib.Data.List.TakeWhile
import Mathlib.Tactic.Common
import PluginBridge.Json.Parser
import PluginBridge.Json.Printer
namespace PluginBridge
namespace Json.Parser
variable {text rest : List Char} {p : Char → Bool}

def Stops (rest : List Char) : Prop :=
  ∀ c ∈ rest.head?, c.isDigit = false ∧ c ≠ '.' ∧ c ≠ 'e' ∧ c ≠ 'E'

theorem Stops.nil : Stops [] := by simp [Stops]

theorem Stops.cons {c : Char} (apart : c.isDigit = false ∧ c ≠ '.' ∧ c ≠ 'e' ∧ c ≠ 'E') :
    Stops (c :: rest) := by
  intro d first
  cases first
  exact apart

theorem takeWhile_stops (stops : ∀ c ∈ rest.head?, p c = false) :
    (text ++ rest).takeWhile p = text.takeWhile p := by
  induction text with
  | nil => cases rest <;> simp_all
  | cons c text ih =>
    rw [List.cons_append, List.takeWhile_cons, List.takeWhile_cons, ih]

theorem dropWhile_stops (stops : ∀ c ∈ rest.head?, p c = false) :
    (text ++ rest).dropWhile p = text.dropWhile p ++ rest := by
  induction text with
  | nil => cases rest <;> simp_all
  | cons c text ih =>
    rw [List.cons_append, List.dropWhile_cons, List.dropWhile_cons, ih]
    split
    · rfl
    · rfl

theorem digits1_append {digits after : List Char} (stops : Stops rest)
    (read : digits1? text = some (digits, after)) : digits1? (text ++ rest) = some (digits, after ++ rest) := by
  have ends : ∀ c ∈ rest.head?, c.isDigit = false := fun c first => (stops c first).1
  unfold digits1? at read ⊢
  rw [takeWhile_stops ends, dropWhile_stops ends]
  split at read
  · cases read
  · rename_i taken
    cases read
    rfl

theorem digits1_nonempty {digits after : List Char} (read : digits1? text = some (digits, after)) :
    text ≠ [] := by
  rintro rfl
  cases read

theorem minus_append (some : text ≠ []) : minus (text ++ rest) = ((minus text).1, (minus text).2 ++ rest) := by
  obtain ⟨c, text, rfl⟩ := List.exists_cons_of_ne_nil some
  by_cases sign : c = '-'
  · subst sign
    rfl
  · rw [List.cons_append, minus, minus]
    · rfl
    · exact fun _ same => sign (List.head_eq_of_cons_eq same)
    · exact fun _ same => sign (List.head_eq_of_cons_eq same)

theorem exponentSign_append (some : text ≠ []) :
    exponentSign (text ++ rest) = ((exponentSign text).1, (exponentSign text).2 ++ rest) := by
  obtain ⟨c, text, rfl⟩ := List.exists_cons_of_ne_nil some
  by_cases plus : c = '+'
  · subst plus
    rfl
  by_cases sign : c = '-'
  · subst sign
    rfl
  · rw [List.cons_append, exponentSign, exponentSign]
    · rfl
    · exact fun _ same => plus (List.head_eq_of_cons_eq same)
    · exact fun _ same => sign (List.head_eq_of_cons_eq same)
    · exact fun _ same => plus (List.head_eq_of_cons_eq same)
    · exact fun _ same => sign (List.head_eq_of_cons_eq same)

theorem fraction_append {digits : Option (List Char)} {after : List Char} (stops : Stops rest)
    (read : fraction? text = some (digits, after)) : fraction? (text ++ rest) = some (digits, after ++ rest) := by
  cases text with
  | nil =>
    cases read
    cases rest with
    | nil => rfl
    | cons c rest =>
      rw [List.nil_append, fraction?]
      exact fun _ same => (stops c rfl).2.1 (List.head_eq_of_cons_eq same)
  | cons c text =>
    by_cases point : c = '.'
    · subst point
      simp only [fraction?, List.cons_append, Option.map_eq_some_iff] at read ⊢
      obtain ⟨taken, found, same⟩ := read
      cases same
      exact ⟨_, digits1_append stops found, rfl⟩
    · rw [fraction?] at read
      · cases read
        rw [List.cons_append, fraction?]
        exact fun _ same => point (List.head_eq_of_cons_eq same)
      · exact fun _ same => point (List.head_eq_of_cons_eq same)

theorem exponent_append {digits : Option (Bool × List Char)} {after : List Char} (stops : Stops rest)
    (read : exponent? text = some (digits, after)) : exponent? (text ++ rest) = some (digits, after ++ rest) := by
  cases text with
  | nil =>
    cases read
    cases rest with
    | nil => rfl
    | cons c rest =>
      have apart : ¬ (c = 'e' ∨ c = 'E') := not_or.mpr (stops c rfl).2.2
      rw [List.nil_append, exponent?, if_neg apart]
  | cons c text =>
    simp only [List.cons_append, exponent?] at read ⊢
    split at read
    · rename_i letter
      rw [Option.map_eq_some_iff] at read
      obtain ⟨taken, found, same⟩ := read
      cases same
      have signed : text ≠ [] := by
        rintro rfl
        exact digits1_nonempty found rfl
      rw [if_pos letter, exponentSign_append signed, Option.map_eq_some_iff]
      exact ⟨_, digits1_append stops found, rfl⟩
    · rename_i apart
      cases read
      rw [if_neg apart]
      rfl

theorem literal_append {l : Literal} {after : List Char} (stops : Stops rest)
    (read : literal text = some (l, after)) : literal (text ++ rest) = some (l, after ++ rest) := by
  unfold literal at read ⊢
  simp only [Option.bind_eq_bind, Option.bind_eq_some_iff] at read
  obtain ⟨⟨digits, behind⟩, whole, read⟩ := read
  have present : text ≠ [] := by
    rintro rfl
    exact digits1_nonempty whole rfl
  simp only [minus_append present, digits1_append stops whole, Option.bind_eq_bind, Option.bind_some]
  split at read
  · cases read
  · rename_i allowed
    rw [if_neg allowed]
    simp only [Option.bind_eq_some_iff] at read
    obtain ⟨⟨fraction, later⟩, point, ⟨exponent, last⟩, power, same⟩ := read
    cases same
    simp only [fraction_append stops point, exponent_append stops power, Option.bind_some]

theorem number_append {n : JsonNumber} {after : List Char} (stops : Stops rest)
    (read : number .strict text = some (n, after)) :
    number .strict (text ++ rest) = some (n, after ++ rest) := by
  unfold number at read ⊢
  simp only [Option.bind_eq_bind, Option.bind_eq_some_iff] at read
  obtain ⟨⟨l, behind⟩, found, read⟩ := read
  simp only [literal_append stops found, Option.bind_eq_bind, Option.bind_some]
  split at read <;> simp_all

theorem toDigits_head {n : Nat} (positive : 0 < n) : (Nat.toDigits 10 n).head? ≠ some '0' := by
  induction n using Nat.strongRecOn with
  | ind n ih =>
    by_cases small : n < 10
    · have table : ∀ d < 10, 0 < d → (Nat.toDigits 10 d).head? ≠ some '0' := by decide
      exact table n small positive
    · have upper : 0 < n / 10 := by omega
      have first := ih (n / 10) (by omega) upper
      rw [Nat.toDigits_of_base_le (by decide) (by omega),
        List.head?_append_of_ne_nil _ Nat.toDigits_ne_nil]
      exact first

theorem toDigits_allowed (n : Nat) :
    ¬ ((Nat.toDigits 10 n).head? = some '0' ∧ 1 < (Nat.toDigits 10 n).length) := by
  rintro ⟨zero, long⟩
  by_cases positive : 0 < n
  · exact toDigits_head positive zero
  · obtain rfl : n = 0 := by omega
    rw [Nat.toDigits_zero] at long
    simp at long

def Digits (text : List Char) : Prop := text ≠ [] ∧ ∀ c ∈ text, c.isDigit = true

theorem Digits.toDigits (n : Nat) : Digits (Nat.toDigits 10 n) :=
  ⟨Nat.toDigits_ne_nil, fun _ among => Nat.isDigit_of_mem_toDigits (by decide) (by decide) among⟩

theorem Digits.take (digits : Digits text) {n : Nat} (some : 0 < n) : Digits (text.take n) := by
  refine ⟨fun none => ?_, fun c among => digits.2 c (List.mem_of_mem_take among)⟩
  rcases List.take_eq_nil_iff.mp none with zero | empty
  · omega
  · exact digits.1 empty

theorem Digits.drop (digits : Digits text) {n : Nat} (short : n < text.length) : Digits (text.drop n) := by
  refine ⟨fun none => ?_, fun c among => digits.2 c (List.mem_of_mem_drop among)⟩
  exact absurd (List.drop_eq_nil_iff.mp none) (Nat.not_le.mpr short)

theorem Digits.append (digits : Digits text) (others : ∀ c ∈ rest, c.isDigit = true) : Digits (text ++ rest) := by
  refine ⟨List.append_ne_nil_of_left_ne_nil digits.1 _, fun c among => ?_⟩
  exact (List.mem_append.mp among).elim (digits.2 c) (others c)

theorem Digits.taken (digits : Digits text) (rest : List Char) (stops : ∀ c ∈ rest.head?, c.isDigit = false) :
    digits1? (text ++ rest) = some (text, rest) := by
  unfold digits1?
  rw [takeWhile_stops stops, dropWhile_stops stops, List.takeWhile_eq_self_iff.mpr digits.2,
    List.dropWhile_eq_nil_iff.mpr digits.2, List.nil_append]
  split
  · exact absurd rfl digits.1
  · rfl

def powerChars : Option (Bool × List Char) → List Char
  | some (down, digits) => 'e' :: (if down then '-' else '+') :: digits
  | none => []

def placeChars (fraction : Option (List Char)) (exponent : Option (Bool × List Char)) : List Char :=
  match fraction with
  | some digits => '.' :: (digits ++ powerChars exponent)
  | none => powerChars exponent

def Literal.written (l : Literal) : List Char :=
  (if l.negative then ['-'] else []) ++ (l.whole ++ placeChars l.fraction l.exponent)

structure Literal.Proper (l : Literal) : Prop where
  whole : Digits l.whole
  allowed : ¬ (l.whole.head? = some '0' ∧ 1 < l.whole.length)
  fraction : ∀ digits ∈ l.fraction, Digits digits
  exponent : ∀ power ∈ l.exponent, Digits power.2

theorem minus_digits (digits : Digits text) (rest : List Char) : minus (text ++ rest) = (false, text ++ rest) := by
  obtain ⟨c, text, rfl⟩ := List.exists_cons_of_ne_nil digits.1
  have digit : c.isDigit = true := digits.2 c List.mem_cons_self
  rw [List.cons_append, minus]
  rintro rest same
  cases List.head_eq_of_cons_eq same
  cases digit

theorem exponent_written {exponent : Option (Bool × List Char)} (power : ∀ part ∈ exponent, Digits part.2) :
    exponent? (powerChars exponent) = some (exponent, []) := by
  cases exponent with
  | none => rfl
  | some part =>
    obtain ⟨down, digits⟩ := part
    have taken := (power _ rfl).taken [] nofun
    rw [List.append_nil] at taken
    cases down <;> simp [powerChars, exponent?, exponentSign, taken]

theorem fraction_written {fraction : Option (List Char)} (exponent : Option (Bool × List Char))
    (places : ∀ digits ∈ fraction, Digits digits) :
    fraction? (placeChars fraction exponent) = some (fraction, powerChars exponent) := by
  cases fraction with
  | none => cases exponent <;> rfl
  | some digits =>
    have taken := (places _ rfl).taken (powerChars exponent) (by cases exponent <;> simp [powerChars])
    simp [placeChars, fraction?, taken]

theorem literal_written {l : Literal} (proper : l.Proper) : literal l.written = some (l, []) := by
  obtain ⟨negative, whole, fraction, exponent⟩ := l
  obtain ⟨digits, allowed, places, power⟩ := proper
  have signed : minus (Literal.written ⟨negative, whole, fraction, exponent⟩) =
      (negative, whole ++ placeChars fraction exponent) := by
    cases negative
    · exact minus_digits digits _
    · rfl
  have taken := digits.taken (placeChars fraction exponent) (by
    cases fraction <;> cases exponent <;> simp [placeChars, powerChars])
  simp only [literal, signed, taken, Option.bind_eq_bind, Option.bind_some, if_neg allowed,
    fraction_written exponent places, exponent_written power]

theorem significand_fits {start : Nat} {digits : List Char}
    (fits : Nat.ofDigitChars 10 digits start < 0x10000000000000000) :
    significand start digits = (Nat.ofDigitChars 10 digits start, digits.length) := by
  induction digits generalizing start with
  | nil => rfl
  | cons c digits ih =>
    have next : start * 10 + digitValue c = 10 * start + (c.toNat - '0'.toNat) := by
      rw [digitValue, Nat.mul_comm]
    rw [Nat.ofDigitChars_cons] at fits ⊢
    have small : 10 * start + (c.toNat - '0'.toNat) < 0x10000000000000000 := by
      rw [Nat.ofDigitChars_eq_ofDigitChars_zero] at fits
      have least := Nat.le_mul_of_pos_left (10 * start + (c.toNat - '0'.toNat))
        (Nat.pow_pos (n := digits.length) (show 0 < 10 by decide))
      omega
    simp only [significand, next, if_neg (Nat.not_le.mpr small), ih fits, List.length_cons]

theorem significand_toDigits {n : Nat} (fits : n < 0x10000000000000000) :
    significand 0 (Nat.toDigits 10 n) = (n, (Nat.toDigits 10 n).length) := by
  have back : Nat.ofDigitChars 10 (Nat.toDigits 10 n) 0 = n := Nat.ofDigitChars_ten_toDigits
  rw [significand_fits (by rwa [back]), back]

theorem number_natural {n : Nat} (fits : n < 0x10000000000000000) :
    number .strict (Nat.toDigits 10 n) = some (.integer n, []) := by
  have found : literal (Nat.toDigits 10 n) = some (⟨false, Nat.toDigits 10 n, none, none⟩, []) := by
    simpa [Literal.written, placeChars, powerChars] using
      literal_written (l := ⟨false, Nat.toDigits 10 n, none, none⟩) ⟨.toDigits n, toDigits_allowed n, nofun, nofun⟩
  simp [number, found, Literal.number?, significand_toDigits fits]

theorem number_negative {n : Nat} (positive : 0 < n) (fits : n ≤ 0x8000000000000000) :
    number .strict ('-' :: Nat.toDigits 10 n) = some (.integer (-n), []) := by
  have found : literal ('-' :: Nat.toDigits 10 n) = some (⟨true, Nat.toDigits 10 n, none, none⟩, []) := by
    simpa [Literal.written, placeChars, powerChars] using
      literal_written (l := ⟨true, Nat.toDigits 10 n, none, none⟩) ⟨.toDigits n, toDigits_allowed n, nofun, nofun⟩
  simp [number, found, Literal.number?, significand_toDigits (show n < 0x10000000000000000 by omega),
    positive, fits]

theorem number_integer {n : Int} (low : -0x8000000000000000 ≤ n) (high : n < 0x10000000000000000) :
    number .strict (numberChars (.integer n)) = some (.integer n, []) := by
  by_cases negative : n < 0
  · have read := number_negative (n := n.natAbs) (by omega) (by omega)
    rw [numberChars, if_pos negative, List.singleton_append, read]
    congr 3
    omega
  · have read := number_natural (n := n.natAbs) (by omega)
    rw [numberChars, if_neg negative, List.nil_append, read]
    congr 3
    omega

end Json.Parser
end PluginBridge
