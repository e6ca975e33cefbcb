import Mathlib.Data.List.Forall2
import Mathlib.Tactic.Common
import PluginBridge.Json.Parser
import PluginBridge.Json.Printer
import PluginBridge.Proofs.Json.Numerals
import PluginBridge.Proofs.Members
import PluginBridge.Proofs.Numeric.Naturals
namespace PluginBridge

theorem hexValue_hexDigit {n : Nat} (small : n < 16) : hexValue? (hexDigit n) = some n := by
  have table : ∀ n < 16, hexValue? (hexDigit n) = some n := by decide
  exact table n small

namespace Json.Parser

theorem unicodeEscape_low {n : Nat} (low : n < 32) (rest : List Char) :
    unicodeEscape .strict ('0' :: '0' :: hexDigit (n / 16) :: hexDigit (n % 16) :: rest) =
      some (Char.ofNat n, rest) := by
  have zero : hexValue? '0' = some 0 := rfl
  have high := hexValue_hexDigit (n := n / 16) (by omega)
  have last := hexValue_hexDigit (n := n % 16) (by omega)
  have quad : hexQuad? ('0' :: '0' :: hexDigit (n / 16) :: hexDigit (n % 16) :: rest) =
      some (n, rest) := by
    simp only [hexQuad?, zero, high, last, Option.bind_eq_bind, Option.bind_some]
    congr 2
    omega
  simp only [unicodeEscape, quad, Option.bind_eq_bind, Option.bind_some]
  rw [if_neg (by decide), if_neg (by omega), if_neg (by omega)]

theorem stringBody_escape (fuel : Nat) (read : List Char) (c : Char) (rest : List Char) :
    stringBody .strict (fuel + 1) read (escapeChar c ++ rest) =
      stringBody .strict fuel (c :: read) rest := by
  unfold escapeChar
  split_ifs with quote backslash backspace formFeed newline carriageReturn tab low
  · subst quote
    rfl
  · subst backslash
    rfl
  · subst backspace
    rfl
  · subst formFeed
    rfl
  · subst newline
    rfl
  · subst carriageReturn
    rfl
  · subst tab
    rfl
  · simp only [List.cons_append, List.nil_append, stringBody, unicodeEscape_low low, Char.ofNat_toNat]
  · have plain : ¬ (c.toNat < 32 ∨ c = '\\') := by simp [backslash, low]
    rw [List.singleton_append, stringBody]
    · exact if_neg plain
    · exact fun same => quote same
    · exact fun _ same _ => backslash same
    · exact fun _ _ same _ => backslash same

theorem stringBody_chars {chars : List Char} {fuel : Nat} (enough : chars.length < fuel)
    (read rest : List Char) :
    stringBody .strict fuel read (chars.flatMap escapeChar ++ '"' :: rest) =
      some (String.ofList (read.reverse ++ chars), rest) := by
  induction chars generalizing fuel read with
  | nil =>
    obtain ⟨fuel, rfl⟩ := Nat.exists_eq_add_one_of_ne_zero (Nat.ne_zero_of_lt enough)
    simp [stringBody]
  | cons c chars ih =>
    obtain ⟨fuel, rfl⟩ := Nat.exists_eq_add_one_of_ne_zero (Nat.ne_zero_of_lt enough)
    rw [List.flatMap_cons, List.append_assoc, stringBody_escape,
      ih (by simpa using enough) (c :: read), List.reverse_cons, List.append_assoc, List.singleton_append]

end Json.Parser

def isNumeral (c : Char) : Bool := c.isDigit || c == '.' || c == 'e' || c == '-' || c == '+'

theorem isNumeral_digit {c : Char} {n : Nat} (among : c ∈ Nat.toDigits 10 n) : isNumeral c = true := by
  have digit : c.isDigit = true := Nat.isDigit_of_mem_toDigits (by decide) (by decide) among
  simp [isNumeral, digit]

def Binary64.SurvivesText (x : Binary64) : Prop :=
  Json.parse? (Json.number (.float x)).render = some (.number (.float x))

open Json.Parser (isBlank skipBlank)
namespace Json

theorem decimalChars_numeral (d : Decimal) : ∀ c ∈ decimalChars d, isNumeral c = true := by
  intro c among
  have zero : isNumeral '0' = true := rfl
  unfold decimalChars at among
  simp only at among
  split at among
  · simp only [List.mem_append, List.mem_cons] at among
    rcases among with (lead | point) | rfl | sign | power
    · exact isNumeral_digit (List.mem_of_mem_take lead)
    · split at point
      · cases point
      · rcases List.mem_cons.mp point with rfl | rest
        · rfl
        · exact isNumeral_digit (List.mem_of_mem_drop rest)
    · rfl
    · split at sign
      · exact sign ▸ rfl
      · exact sign ▸ rfl
    · exact isNumeral_digit power
  split at among
  · simp only [List.mem_append, List.mem_cons, List.mem_replicate, List.not_mem_nil, or_false] at among
    rcases among with (digit | ⟨_, rfl⟩) | rfl | rfl
    · exact isNumeral_digit digit
    · rfl
    · rfl
    · rfl
  split at among
  · simp only [List.mem_append, List.mem_cons] at among
    rcases among with lead | rfl | rest
    · exact isNumeral_digit (List.mem_of_mem_take lead)
    · rfl
    · exact isNumeral_digit (List.mem_of_mem_drop rest)
  · simp only [List.mem_append, List.mem_cons, List.mem_replicate, List.cons_append] at among
    rcases among with rfl | rfl | ⟨_, rfl⟩ | digit
    · rfl
    · rfl
    · rfl
    · exact isNumeral_digit digit

theorem floatChars_meant {x : Binary64} {negative : Bool} {m : Nat} {e : Int}
    (meant : x.meaning = .finite negative m e) : ∀ c ∈ floatChars x, isNumeral c = true := by
  have size : ∀ c ∈ (if m = 0 then ['0', '.', '0'] else decimalChars (Decimal.shortest m e)),
      isNumeral c = true := by
    split
    · exact List.all_eq_true.mp rfl
    · exact decimalChars_numeral _
  intro c among
  simp only [floatChars, meant] at among
  split at among
  · rcases List.mem_cons.mp among with rfl | rest
    · rfl
    · exact size c rest
  · exact size c among

theorem floatChars_numeral {x : Binary64} (finite : x.isFinite = true) :
    ∀ c ∈ floatChars x, isNumeral c = true := by
  obtain ⟨negative, m, e, meant⟩ := Binary64.meaning_finite finite
  exact floatChars_meant meant

theorem integerChars_numeral (n : Int) : ∀ c ∈ numberChars (.integer n), isNumeral c = true := by
  intro c among
  rw [numberChars] at among
  rcases List.mem_append.mp among with sign | digit
  · split at sign
    · rw [List.mem_singleton.mp sign]
      rfl
    · cases sign
  · exact isNumeral_digit digit

theorem isNumeral_plain {c : Char} (numeral : isNumeral c = true) :
    isBlank c = false ∧ c ≠ 'n' ∧ c ≠ 't' ∧ c ≠ 'f' ∧ c ≠ '"' ∧ c ≠ '[' ∧ c ≠ '{' ∧ c ≠ ']' ∧ c ≠ '}' := by
  have apart : ∀ d : Char, isNumeral d = false → c ≠ d := by
    rintro d other rfl
    rw [numeral] at other
    cases other
  refine ⟨?_, apart _ rfl, apart _ rfl, apart _ rfl, apart _ rfl, apart _ rfl, apart _ rfl,
    apart _ rfl, apart _ rfl⟩
  simp [isBlank, apart ' ' rfl, apart '\t' rfl, apart '\n' rfl, apart '\r' rfl]

-- What a value may begin with, so that nothing is skipped before it and no bracket closes there.
def Begins (text : List Char) : Prop :=
  ∃ c rest, text = c :: rest ∧ isBlank c = false ∧ c ≠ ']' ∧ c ≠ '}'

theorem skipBlank_plain {c : Char} (plain : isBlank c = false) (rest : List Char) :
    skipBlank (c :: rest) = c :: rest := by
  simp [skipBlank, plain]

theorem value_numeral {c : Char} (numeral : isNumeral c = true) (fuel levels : Nat) (rest : List Char) :
    Parser.value .strict fuel levels (c :: rest) =
      (Parser.number .strict (c :: rest)).map fun (n, rest) => (.number n, rest) := by
  obtain ⟨blank, null, true_, false_, quote, bracket, brace, _, _⟩ := isNumeral_plain numeral
  unfold Parser.value
  rw [skipBlank_plain blank]
  split <;> first | rfl | (rename_i same; exact absurd (List.head_eq_of_cons_eq same) ‹_›)

theorem number_parsed {x : Binary64} (finite : x.isFinite = true) {n : JsonNumber}
    (read : Parser.number .strict (floatChars x) = some (n, [])) :
    (∃ c rest, floatChars x = c :: rest ∧ isNumeral c = true) ∧
      parse? (Json.number (.float x)).render = some (.number n) := by
  have numerals := floatChars_numeral finite
  cases written : floatChars x with
  | nil =>
    rw [written] at read
    cases read
  | cons c rest =>
    rw [written] at numerals read
    have numeral := numerals c List.mem_cons_self
    refine ⟨⟨c, rest, rfl, numeral⟩, ?_⟩
    rw [parse?, parseWithin, render, chars, numberChars, written, String.toList_ofList, Parser.whole,
      value_numeral numeral, read]
    rfl

theorem isNumeral_printable {c : Char} (numeral : isNumeral c = true) : 32 ≤ c.toNat := by
  simp only [isNumeral, Char.isDigit, Bool.or_eq_true, Bool.and_eq_true, decide_eq_true_eq, beq_iff_eq] at numeral
  rcases numeral with (((⟨low, -⟩ | rfl) | rfl) | rfl) | rfl
  · exact Nat.le_trans (by decide) (UInt32.le_iff_toNat_le.mp low)
  all_goals decide

theorem printable_of_all {text : List Char} (all : text.all (fun c => decide (32 ≤ c.toNat)) = true) :
    ∀ c ∈ text, 32 ≤ c.toNat :=
  fun c among => of_decide_eq_true (List.all_eq_true.mp all c among)

theorem escapeChar_printable (c : Char) : ∀ d ∈ escapeChar c, 32 ≤ d.toNat := by
  unfold escapeChar
  split_ifs with _ _ _ _ _ _ _ control
  -- Seven characters have an escape of their own.
  iterate 7 exact printable_of_all rfl
  · have digit : ∀ n < 16, 32 ≤ (hexDigit n).toNat := by decide
    simp only [List.forall_mem_cons]
    exact ⟨by decide, by decide, by decide, by decide, digit _ (by omega), digit _ (by omega), List.forall_mem_nil _⟩
  · intro d among
    rw [List.mem_singleton.mp among]
    exact Nat.le_of_not_lt control

theorem stringChars_printable (s : String) : ∀ c ∈ stringChars s, 32 ≤ c.toNat := by
  intro c among
  simp only [stringChars, List.cons_append, List.mem_cons, List.mem_append, List.mem_flatMap,
    List.not_mem_nil, or_false] at among
  rcases among with rfl | ⟨d, -, escaped⟩ | rfl
  · decide
  · exact escapeChar_printable d c escaped
  · decide

theorem numberChars_printable (n : JsonNumber) : ∀ c ∈ numberChars n, 32 ≤ c.toNat := by
  cases n with
  | integer n => exact fun c among => isNumeral_printable (integerChars_numeral n c among)
  | float x =>
    cases meant : x.meaning with
    | finite negative m e => exact fun c among => isNumeral_printable (floatChars_meant meant c among)
    | _ =>
      simp only [numberChars, floatChars, meant]
      exact printable_of_all rfl

mutual

theorem chars_printable : ∀ json : Json, ∀ c ∈ json.chars, 32 ≤ c.toNat
  | .null | .bool true | .bool false => printable_of_all rfl
  | .number n => numberChars_printable n
  | .string s => stringChars_printable s
  | .array items => by
    have inner := itemsChars_printable items
    simp only [chars, List.forall_mem_append, List.forall_mem_cons]
    exact ⟨⟨by decide, inner⟩, by decide, List.forall_mem_nil _⟩
  | .object members => by
    have inner := membersChars_printable members
    simp only [chars, List.forall_mem_append, List.forall_mem_cons]
    exact ⟨⟨by decide, inner⟩, by decide, List.forall_mem_nil _⟩

theorem itemsChars_printable : ∀ items : List Json, ∀ c ∈ itemsChars items, 32 ≤ c.toNat
  | [] => List.forall_mem_nil _
  | [item] => chars_printable item
  | item :: second :: rest => by
    rw [itemsChars, List.forall_mem_append, List.forall_mem_cons]
    · exact ⟨chars_printable item, by decide, itemsChars_printable (second :: rest)⟩
    · nofun

theorem membersChars_printable : ∀ members : List (String × Json), ∀ c ∈ membersChars members, 32 ≤ c.toNat
  | [] => List.forall_mem_nil _
  | [(key, value)] => by
    rw [membersChars, List.forall_mem_append, List.forall_mem_cons]
    exact ⟨stringChars_printable key, by decide, chars_printable value⟩
  | (key, value) :: second :: rest => by
    rw [membersChars, List.forall_mem_append, List.forall_mem_append, List.forall_mem_cons, List.forall_mem_cons]
    · exact ⟨⟨stringChars_printable key, by decide, chars_printable value⟩, by decide,
        membersChars_printable (second :: rest)⟩
    · nofun

end

end Json

end PluginBridge
