import Mathlib.Tactic.SplitIfs
import PluginBridge.Proofs.Stream.Lines
import PluginBridge.Text.Lossy
namespace PluginBridge
namespace Lossy
variable {lead b : UInt8} {rest : List UInt8} {v : Nat}

theorem byte_number {n : Nat} (small : n < 256) : (UInt8.ofNat n).toNat = n :=
  UInt8.toNat_ofNat_of_lt' small

theorem isContinuation_iff : isContinuation b = true ↔ 0x80 ≤ b.toNat ∧ b.toNat < 0xC0 := by
  simp [isContinuation, UInt8.le_iff_toNat_le, UInt8.lt_iff_toNat_lt]

theorem secondFits_iff : secondFits lead b = true ↔
    0x80 ≤ b.toNat ∧ b.toNat < 0xC0 ∧ (lead.toNat = 0xE0 → 0xA0 ≤ b.toNat) ∧
      (lead.toNat = 0xED → b.toNat < 0xA0) ∧ (lead.toNat = 0xF0 → 0x90 ≤ b.toNat) ∧
      (lead.toNat = 0xF4 → b.toNat < 0x90) := by
  simp only [secondFits, isContinuation, ← UInt8.toNat_inj, UInt8.reduceToNat]
  split_ifs <;> simp [UInt8.le_iff_toNat_le, UInt8.lt_iff_toNat_lt] <;> omega

theorem continues (part : Nat) : isContinuation (UInt8.ofNat (part % 64 + 128)) = true := by
  rw [isContinuation_iff, byte_number (by omega)]
  omega

theorem payload_carried (part : Nat) : payload (UInt8.ofNat (part % 64 + 128)) = part % 64 := by
  rw [payload, byte_number (by omega)]
  omega

theorem step_one (below : v ≤ 127) : step (UInt8.ofNat v) rest = (Char.ofNat v, 0) := by
  have lead := byte_number (n := v) (by omega)
  have low : UInt8.ofNat v < 0x80 := by
    rw [UInt8.lt_iff_toNat_lt, lead]
    exact Nat.lt_succ_of_le below
  unfold step
  rw [if_pos low, lead]

theorem step_two (above : 127 < v) (below : v ≤ 2047) :
    step (UInt8.ofNat (v / 64 % 32 + 192)) (UInt8.ofNat (v % 64 + 128) :: rest) = (Char.ofNat v, 1) ∧
      step (UInt8.ofNat (v / 64 % 32 + 192)) [] = ('\uFFFD', 0) := by
  have lead := byte_number (n := v / 64 % 32 + 192) (by omega)
  have value : (v / 64 % 32 + 192) % 32 * 64 + v % 64 = v := by omega
  unfold step
  simp only [UInt8.lt_iff_toNat_lt, UInt8.le_iff_toNat_le, UInt8.reduceToNat, lead, continues,
    payload_carried, value]
  constructor <;> split_ifs <;> first | rfl | omega

theorem step_three (above : 2047 < v) (below : v ≤ 65535) (scalar : v < 55296 ∨ 57343 < v) :
    step (UInt8.ofNat (v / 4096 % 16 + 224))
        (UInt8.ofNat (v / 64 % 64 + 128) :: UInt8.ofNat (v % 64 + 128) :: rest) = (Char.ofNat v, 2) ∧
      step (UInt8.ofNat (v / 4096 % 16 + 224)) [UInt8.ofNat (v / 64 % 64 + 128)] = ('\uFFFD', 1) ∧
      step (UInt8.ofNat (v / 4096 % 16 + 224)) [] = ('\uFFFD', 0) := by
  have lead := byte_number (n := v / 4096 % 16 + 224) (by omega)
  have value : ((v / 4096 % 16 + 224) % 16 * 64 + v / 64 % 64) * 64 + v % 64 = v := by omega
  have second : secondFits (UInt8.ofNat (v / 4096 % 16 + 224)) (UInt8.ofNat (v / 64 % 64 + 128)) = true := by
    rw [secondFits_iff, lead, byte_number (by omega)]
    omega
  unfold step
  simp only [UInt8.lt_iff_toNat_lt, UInt8.le_iff_toNat_le, UInt8.reduceToNat, lead, second, continues,
    payload_carried, value]
  refine ⟨?_, ?_, ?_⟩ <;> split_ifs <;> first | rfl | omega

theorem step_four (above : 65535 < v) (below : v < 1114112) :
    step (UInt8.ofNat (v / 262144 % 8 + 240)) (UInt8.ofNat (v / 4096 % 64 + 128) ::
        UInt8.ofNat (v / 64 % 64 + 128) :: UInt8.ofNat (v % 64 + 128) :: rest) = (Char.ofNat v, 3) ∧
      step (UInt8.ofNat (v / 262144 % 8 + 240)) [UInt8.ofNat (v / 4096 % 64 + 128),
        UInt8.ofNat (v / 64 % 64 + 128)] = ('\uFFFD', 2) ∧
      step (UInt8.ofNat (v / 262144 % 8 + 240)) [UInt8.ofNat (v / 4096 % 64 + 128)] = ('\uFFFD', 1) ∧
      step (UInt8.ofNat (v / 262144 % 8 + 240)) [] = ('\uFFFD', 0) := by
  have lead := byte_number (n := v / 262144 % 8 + 240) (by omega)
  have value : (((v / 262144 % 8 + 240) % 8 * 64 + v / 4096 % 64) * 64 + v / 64 % 64) * 64 + v % 64 = v := by
    omega
  have second : secondFits (UInt8.ofNat (v / 262144 % 8 + 240)) (UInt8.ofNat (v / 4096 % 64 + 128)) = true := by
    rw [secondFits_iff, lead, byte_number (by omega)]
    omega
  unfold step
  simp only [UInt8.lt_iff_toNat_lt, UInt8.le_iff_toNat_le, UInt8.reduceToNat, lead, second, continues,
    payload_carried, value]
  refine ⟨?_, ?_, ?_, ?_⟩ <;> split_ifs <;> first | rfl | omega

theorem step_encoded (c : Char) : ∃ lead more, String.utf8EncodeChar c = lead :: more ∧
    (∀ rest, step lead (more ++ rest) = (c, more.length)) ∧
      ∀ k < more.length, step lead (more.take k) = ('\uFFFD', k) := by
  have back : Char.ofNat c.val.toNat = c := Char.ofNat_toNat c
  have valid : c.val.toNat < 55296 ∨ 57343 < c.val.toNat ∧ c.val.toNat < 1114112 := c.valid
  unfold String.utf8EncodeChar
  simp only
  generalize c.val.toNat = v at *
  split_ifs with one two three
  · exact ⟨_, _, rfl, fun rest => back ▸ step_one one, fun k short => absurd short (Nat.not_lt_zero k)⟩
  · have read := fun rest => @step_two rest v (by omega) two
    refine ⟨_, _, rfl, fun rest => back ▸ (read rest).1, fun k short => ?_⟩
    match k, short with
    | 0, _ => exact (read []).2
  · have read := fun rest => @step_three rest v (by omega) three (by omega)
    refine ⟨_, _, rfl, fun rest => back ▸ (read rest).1, fun k short => ?_⟩
    match k, short with
    | 0, _ => exact (read []).2.2
    | 1, _ => exact (read []).2.1
  · have read := fun rest => @step_four rest v (by omega) (by omega)
    refine ⟨_, _, rfl, fun rest => back ▸ (read rest).1, fun k short => ?_⟩
    match k, short with
    | 0, _ => exact (read []).2.2.2
    | 1, _ => exact (read []).2.2.1
    | 2, _ => exact (read []).2.1

theorem chars_skip (used : List UInt8) (read : List Char) (rest : List UInt8) :
    chars used.length read (used ++ rest) = chars 0 read rest := by
  induction used with
  | nil => rfl
  | cons b used ih => exact ih

theorem chars_encoded (cs read : List Char) (rest : List UInt8) :
    chars 0 read (cs.flatMap String.utf8EncodeChar ++ rest) = chars 0 (cs.reverse ++ read) rest := by
  induction cs generalizing read with
  | nil => rfl
  | cons c cs ih =>
    obtain ⟨lead, more, encoded, whole, -⟩ := step_encoded c
    rw [List.flatMap_cons, encoded, List.append_assoc, List.cons_append, chars, whole]
    simp only
    rw [chars_skip, ih, List.reverse_cons, List.append_assoc, List.singleton_append]

theorem chars_cut {c : Char} {k : Nat} (some : 0 < k) (short : k < c.utf8Size) (read : List Char) :
    chars 0 read ((String.utf8EncodeChar c).take k) = read.reverse ++ ['\uFFFD'] := by
  obtain ⟨lead, more, encoded, -, part⟩ := step_encoded c
  obtain ⟨k, rfl⟩ := Nat.exists_eq_succ_of_ne_zero some.ne'
  have size : more.length + 1 = c.utf8Size := by
    rw [← String.length_utf8EncodeChar, encoded, List.length_cons]
  have taken : (more.take k).length = k := List.length_take_of_le (by omega)
  have rest := chars_skip (more.take k) ('\uFFFD' :: read) []
  rw [taken, List.append_nil] at rest
  rw [encoded, List.take_succ_cons, chars, part k (by omega)]
  simp only
  rw [rest, chars, List.reverse_cons]

end Lossy

theorem lossyText_chars (bytes : ByteArray) :
    lossyText bytes = String.ofList (Lossy.chars 0 [] (Bytes.toList bytes)) := by
  unfold lossyText
  split
  · rename_i text read
    obtain ⟨valid, same⟩ := Option.dite_none_right_eq_some.mp read
    have whole : bytes = text.toUTF8 := by
      rw [← Option.some.inj same]
      rfl
    have back := Lossy.chars_encoded text.toList [] []
    rw [List.append_nil, List.append_nil] at back
    rw [whole, StreamLine.toList_utf8, back, Lossy.chars, List.reverse_reverse, String.ofList_toList]
  · rfl

namespace Text
variable {text kept rest : String} {c : Char} {limit : Nat}

-- A cut behind `limit` bytes goes through the character `c`, which has bytes on both sides of it.
structure Halved (text : String) (limit : Nat) (kept : String) (c : Char) (rest : String) : Prop where
  parts : text = kept ++ String.singleton c ++ rest
  starts : kept.utf8ByteSize < limit
  ends : limit < kept.utf8ByteSize + c.utf8Size

theorem cut_cases (text : String) (limit : Nat) :
    (∃ kept rest, text = kept ++ rest ∧ kept.utf8ByteSize = min text.utf8ByteSize limit) ∨
      ∃ kept c rest, Halved text limit kept c rest := by
  rw [← String.ofList_toList (s := text)]
  generalize text.toList = cs
  induction cs generalizing limit with
  | nil => exact .inl ⟨"", "", rfl, rfl⟩
  | cons c cs ih =>
    rw [String.ofList_cons, String.utf8ByteSize_append, String.utf8ByteSize_singleton]
    by_cases fits : c.utf8Size ≤ limit
    · -- The first character is kept, and the cut stands that much nearer to what follows.
      rcases ih (limit - c.utf8Size) with ⟨kept, rest, parts, size⟩ | ⟨kept, d, rest, parts, starts, ends⟩
      · refine .inl ⟨String.singleton c ++ kept, rest, ?_, ?_⟩
        · rw [parts, String.append_assoc]
        · rw [String.utf8ByteSize_append, String.utf8ByteSize_singleton, size]
          omega
      · refine .inr ⟨String.singleton c ++ kept, d, rest, ?_, ?_, ?_⟩
        · rw [parts]
          simp only [String.append_assoc]
        all_goals
          rw [String.utf8ByteSize_append, String.utf8ByteSize_singleton]
          omega
    · by_cases none : limit = 0
      · subst none
        exact .inl ⟨"", String.singleton c ++ String.ofList cs, String.empty_append.symm, (Nat.min_zero _).symm⟩
      · exact .inr ⟨"", c, String.ofList cs, by rw [String.empty_append], Nat.pos_of_ne_zero none,
          by rw [String.utf8ByteSize_empty]; omega⟩

theorem lossy_kept (parts : text = kept ++ rest) :
    lossyText (text.toUTF8.extract 0 kept.utf8ByteSize) = kept := by
  have cut : (kept ++ rest).toUTF8.extract 0 kept.utf8ByteSize = kept.toUTF8 :=
    (congrArg (·.extract 0 kept.utf8ByteSize) String.toByteArray_append).trans
      (ByteArray.extract_append_eq_left rfl)
  rw [parts, cut, lossyText, utf8_back]

theorem Halved.lossy (halved : Halved text limit kept c rest) :
    lossyText (text.toUTF8.extract 0 limit) = kept ++ "\uFFFD" := by
  have starts := halved.starts
  have ends := halved.ends
  have size := String.length_utf8EncodeChar c
  have before : (kept.toList.flatMap String.utf8EncodeChar).length = kept.utf8ByteSize := by
    rw [← StreamLine.toList_utf8]
    rfl
  have taken : Bytes.toList (text.toUTF8.extract 0 limit) = (Bytes.toList text.toUTF8).take limit := by
    rw [Bytes.toList, ByteArray.data_extract, Array.toList_extract, List.extract_eq_take_drop]
    rfl
  have bytes : Bytes.toList (text.toUTF8.extract 0 limit) = kept.toList.flatMap String.utf8EncodeChar ++
      (String.utf8EncodeChar c).take (limit - kept.utf8ByteSize) := by
    rw [taken, StreamLine.toList_utf8, halved.parts, String.toList_append, String.toList_append,
      String.toList_singleton, List.flatMap_append, List.flatMap_append, List.flatMap_singleton,
      List.append_assoc, List.take_append, List.take_of_length_le (before ▸ Nat.le_of_lt starts), before,
      List.take_append_of_le_length (by omega)]
  rw [lossyText_chars, bytes, Lossy.chars_encoded, Lossy.chars_cut (by omega) (by omega), List.append_nil,
    List.reverse_reverse, String.ofList_append, String.ofList_toList]

def carried (text : String) (limit : Nat) : String :=
  lossyText (text.toUTF8.extract 0 (min text.utf8ByteSize limit))

theorem carried_fitting (fits : text.utf8ByteSize ≤ limit) : carried text limit = text := by
  rw [carried, Nat.min_eq_left fits]
  exact lossy_kept String.append_empty.symm

theorem carried_halved (halved : Halved text limit kept c rest) : carried text limit = kept ++ "\uFFFD" := by
  have longer : limit ≤ text.utf8ByteSize := by
    have ends := halved.ends
    rw [halved.parts, String.utf8ByteSize_append, String.utf8ByteSize_append, String.utf8ByteSize_singleton]
    omega
  rw [carried, Nat.min_eq_right longer, halved.lossy]

theorem carried_whole (whole : ¬ ∃ kept c rest, Halved text limit kept c rest) :
    (carried text limit).toList <+: text.toList ∧
      (carried text limit).utf8ByteSize = min text.utf8ByteSize limit := by
  obtain ⟨kept, rest, parts, size⟩ := (cut_cases text limit).resolve_right whole
  have shown : carried text limit = kept := by
    rw [carried, ← size, lossy_kept parts]
  rw [shown, parts, String.toList_append, ← parts]
  exact ⟨List.prefix_append kept.toList rest.toList, size⟩

theorem carried_prefix_iff : (carried text limit).toList <+: text.toList ↔
    ∀ kept c rest, Halved text limit kept c rest → c = '\uFFFD' := by
  constructor
  · intro front kept c rest halved
    rw [carried_halved halved, halved.parts, String.toList_append, String.toList_append, String.toList_append,
      List.append_assoc, List.prefix_append_right_inj, String.toList_singleton, List.singleton_append] at front
    exact (List.cons_prefix_cons.mp front).1.symm
  · intro same
    by_cases cut : ∃ kept c rest, Halved text limit kept c rest
    · obtain ⟨kept, c, rest, halved⟩ := cut
      obtain rfl := same kept c rest halved
      rw [carried_halved halved, halved.parts, String.toList_append (s := kept ++ _)]
      exact List.prefix_append _ _
    · exact (carried_whole cut).1

end Text
end PluginBridge
