import PluginBridge.Proofs.Json.Prefixes
import PluginBridge.Stream.Message
namespace PluginBridge
variable {shown hidden text : List Char} {n : Nat}

theorem naturalOfDigits_eq (digits : List Char) : naturalOfDigits digits = Nat.ofDigitChars 10 digits 0 := by
  simp only [naturalOfDigits, Nat.ofDigitChars, Nat.mul_comm]

theorem naturalOfDigits_toDigits (n : Nat) : naturalOfDigits (Nat.toDigits 10 n) = n := by
  rw [naturalOfDigits_eq, Nat.ofDigitChars_ten_toDigits]

theorem naturalOfDigits_cut (digits : shown ++ hidden = Nat.toDigits 10 n) (some : shown ≠ []) (more : hidden ≠ []) :
    naturalOfDigits shown < n := by
  have value := naturalOfDigits_toDigits n
  rw [← digits, naturalOfDigits_eq, Nat.ofDigitChars_append, Nat.ofDigitChars_eq_ofDigitChars_zero,
    ← naturalOfDigits_eq] at value
  have ten : 10 ≤ 10 ^ hidden.length := Nat.le_self_pow (List.length_pos_iff.mpr more).ne' 10
  have scaled := Nat.mul_le_mul_right (naturalOfDigits shown) ten
  have positive : n ≠ 0 := by
    rintro rfl
    have lengths := congrArg List.length digits
    have front := List.length_pos_iff.mpr some
    have back := List.length_pos_iff.mpr more
    rw [List.length_append, Nat.toDigits_zero, List.length_singleton] at lengths
    omega
  omega

theorem wordOfDigits_done (digits : Json.Parser.Digits text) (fits : naturalOfDigits text < wordLimit) :
    wordOfDigits? text = some (naturalOfDigits text) := by
  have all : text.all Char.isDigit = true := List.all_eq_true.mpr digits.2
  rw [wordOfDigits?, if_neg (by simp [digits.1, all]), if_pos fits]

theorem isBlankChar_digit {c : Char} (digit : c.isDigit = true) : isBlankChar c = false := by
  rw [Char.isDigit, Bool.and_eq_true, decide_eq_true_eq, decide_eq_true_eq] at digit
  have low : 48 ≤ c.toNat := digit.1
  have high : c.toNat ≤ 57 := digit.2
  simp only [isBlankChar, Bool.or_eq_false_iff, Bool.and_eq_false_iff, decide_eq_false_iff_not, beq_eq_false_iff_ne]
  omega

namespace Message

theorem holds_mem {part : List Char} (found : holds part text = true) : ∀ c ∈ part, c ∈ text := by
  induction text with
  | nil =>
    rw [holds, List.isEmpty_iff] at found
    rw [found]
    exact List.forall_mem_nil _
  | cons d rest ih =>
    rw [holds, Bool.or_eq_true] at found
    intro c among
    rcases found with here | later
    · exact (List.isPrefixOf_iff_prefix.mp here).subset among
    · exact List.mem_cons_of_mem d (ih later c among)

def idKey : List Char := '{' :: Json.stringChars "id" ++ [':']

theorem leadingId_behind (digits : Json.Parser.Digits shown) (stops : ∀ c ∈ text.head?, c.isDigit = false) :
    leadingId? (idKey ++ (shown ++ text)) = wordOfDigits? shown := by
  obtain ⟨c, rest, rfl⟩ := List.exists_cons_of_ne_nil digits.1
  have digit := digits.2 c List.mem_cons_self
  have plain : isBlankChar c = false := isBlankChar_digit digit
  have trimmed : Text.trimStartChars (c :: rest ++ text) = c :: rest ++ text := by
    rw [List.cons_append, Text.trimStartChars, List.dropWhile_cons, plain]
    rfl
  have taken : (c :: rest ++ text).takeWhile Char.isDigit = c :: rest := by
    rw [Json.Parser.takeWhile_stops stops, List.takeWhile_eq_self_iff.mpr digits.2]
  have front : leadingId? (idKey ++ (c :: rest ++ text)) =
      wordOfDigits? ((Text.trimStartChars (c :: rest ++ text)).takeWhile Char.isDigit) := rfl
  rw [front, trimmed, taken]

theorem leadingId_key (cut : text <+: idKey) : leadingId? text = none := by
  have each : ∀ k ≤ idKey.length, leadingId? (idKey.take k) = none := by decide
  rw [List.prefix_iff_eq_take.mp cut]
  exact each text.length cut.length_le

end Message

namespace Response
open Message
variable {response : Response} {part : String}

def CutsId (response : Response) (part : String) : Prop :=
  ∃ shown hidden, shown ≠ [] ∧ hidden ≠ [] ∧ shown ++ hidden = Nat.toDigits 10 response.id ∧
    part.toList = idKey ++ shown

theorem line_parts (response : Response) : ∃ rest,
    response.line.toList = idKey ++ (Nat.toDigits 10 response.id ++ ',' :: rest) := by
  obtain ⟨fields, shape⟩ : ∃ fields, response.line =
      Json.renderFields (("id", .natural response.id) :: ("success", .bool response.success) :: fields) := ⟨_, rfl⟩
  have number : (Json.natural response.id).chars = Nat.toDigits 10 response.id := by
    rw [Json.natural, Json.chars, Json.numberChars, if_neg (by omega), List.nil_append, Int.natAbs_natCast]
  have first : Json.membersChars (("id", .natural response.id) :: ("success", .bool response.success) :: fields) =
      Json.stringChars "id" ++ ':' :: (Json.natural response.id).chars ++
        ',' :: Json.membersChars (("success", .bool response.success) :: fields) := rfl
  refine ⟨Json.membersChars (("success", .bool response.success) :: fields) ++ ['}'], ?_⟩
  rw [shape, Json.renderFields, String.toList_ofList, first, number, idKey]
  simp only [List.cons_append, List.append_assoc, List.nil_append]

-- Without a key of another message in it, a line that cannot be read has the id at its start.
theorem responseId_unread (unread : Json.parse? part = none) :
    responseId? part = none ∨ responseId? part = leadingId? part.toList := by
  rw [responseId?, unread]
  simp only
  split
  · exact .inl rfl
  · exact .inr rfl

theorem CutsId.responseId (small : response.id < wordLimit) (cuts : response.CutsId part)
    (unread : Json.parse? part = none) : ∃ other < response.id, responseId? part = some other := by
  obtain ⟨shown, hidden, some, more, digits, cut⟩ := cuts
  have less := naturalOfDigits_cut digits some more
  have each : Json.Parser.Digits shown := ⟨some, fun c among =>
    (Json.Parser.Digits.toDigits response.id).2 c (digits ▸ List.mem_append_left hidden among)⟩
  have key : leadingId? (idKey ++ (shown ++ [])) = wordOfDigits? shown := leadingId_behind each nofun
  rw [List.append_nil, wordOfDigits_done each (less.trans small), ← cut] at key
  have others : ∀ word : List Char, 'c' ∈ word → holds word part.toList = false := by
    intro word among
    by_contra found
    have inside := holds_mem (Bool.of_not_eq_false found) 'c' among
    rw [cut] at inside
    rcases List.mem_append.mp inside with front | digit
    · exact absurd front (by decide)
    · exact absurd (each.2 'c' digit) (by decide)
  refine ⟨naturalOfDigits shown, less, ?_⟩
  rw [responseId?, unread]
  simp only
  rw [others _ (by decide), others _ (by decide)]
  exact key

theorem leadingId_part (small : response.id < wordLimit) (cut : part.toList <+: response.line.toList)
    (whole : ¬ response.CutsId part) :
    leadingId? part.toList = none ∨ leadingId? part.toList = some response.id := by
  have digits := Json.Parser.Digits.toDigits response.id
  have value := naturalOfDigits_toDigits response.id
  have word := wordOfDigits_done digits (value.symm ▸ small)
  obtain ⟨rest, line⟩ := response.line_parts
  rw [line] at cut
  -- The part ends in the key, among the digits, or behind them.
  rcases Json.prefix_append cut with key | ⟨behind, later, same⟩
  · exact .inl (leadingId_key key)
  rcases Json.prefix_append later with ⟨hidden, within⟩ | ⟨tail, last, rfl⟩
  · by_cases none : behind = []
    · rw [none, List.append_nil] at same
      exact .inl (leadingId_key (same ▸ List.prefix_refl _))
    by_cases all : hidden = []
    · rw [all, List.append_nil] at within
      have found : leadingId? (idKey ++ (Nat.toDigits 10 response.id ++ [])) = wordOfDigits? _ :=
        leadingId_behind digits nofun
      rw [List.append_nil, word, value, ← within, ← same] at found
      exact .inr found
    · exact absurd ⟨behind, hidden, none, all, within, same⟩ whole
  · have stops : ∀ c ∈ tail.head?, c.isDigit = false := by
      intro c first
      rcases List.prefix_cons_iff.mp last with rfl | ⟨_, rfl, _⟩
      · cases first
      · cases first
        rfl
    have found := leadingId_behind digits stops
    rw [word, value, ← same] at found
    exact .inr found

-- A part of a response's line is no message, and it is taken for the response to its request or to none, unless
-- it ends between two digits of the id.
theorem line_cut (small : response.id < wordLimit) {rest : String} (cut : part ++ rest = response.line)
    (strict : rest ≠ "") :
    Message.parse? part = none ∧
      ((responseId? part = none ∨ responseId? part = some response.id) ↔ ¬ response.CutsId part) := by
  have unread : Json.parse? part = none := Json.renderFields_cut cut strict
  refine ⟨by rw [Message.parse?, unread]; rfl, fun either cuts => ?_, fun whole => ?_⟩
  · obtain ⟨other, less, found⟩ := cuts.responseId small unread
    rw [found] at either
    rcases either with none | same
    · cases none
    · cases same
      exact absurd less (Nat.lt_irrefl _)
  · have within : part.toList <+: response.line.toList := ⟨rest.toList, by rw [← String.toList_append, cut]⟩
    rcases responseId_unread unread with none | found
    · exact .inl none
    · rw [found]
      exact leadingId_part small within whole

theorem line_cut_success : ∃ rest, "\x7b\"id\":12,\"succ" ++ rest = (failed 12 "c").line ∧
    Message.parse? "\x7b\"id\":12,\"succ" = none ∧
      ((responseId? "\x7b\"id\":12,\"succ" = none ∨ responseId? "\x7b\"id\":12,\"succ" = some 12) ↔
        ¬ (failed 12 "c").CutsId "\x7b\"id\":12,\"succ") := by
  have cut : "\x7b\"id\":12,\"succ" ++ "ess\":false,\"error\":\"c\"\x7d" = (failed 12 "c").line := by decide +kernel
  exact ⟨_, cut, line_cut (by decide) cut (by decide)⟩

-- Of the response to the twelfth request only the first digit of the id came.
theorem line_cut_id : ∃ (response : Response) (part rest : String), response.id = 12 ∧ part ++ rest = response.line ∧
    rest ≠ "" ∧ responseId? part = some 1 := by
  refine ⟨failed 12 "c", "\x7b\"id\":1", "2,\"success\":false,\"error\":\"c\"\x7d", rfl, ?_, by decide, ?_⟩
  · decide +kernel
  · decide +kernel

end Response
end PluginBridge
