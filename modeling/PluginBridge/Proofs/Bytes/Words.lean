import Mathlib.Tactic.Common
import Mathlib.Tactic.Ring
import PluginBridge.Bytes.Word
namespace PluginBridge

theorem toNat_word {n : Nat} (fits : n < 0x100000000) : (UInt32.ofNat n).toNat = n :=
  UInt32.toNat_ofNat_of_lt' fits

theorem littleEndian_length (width n : Nat) : (littleEndian width n).length = width := by
  induction width generalizing n with
  | zero => rfl
  | succ width ih => simp [littleEndian, ih]

theorem ofLittleEndian_littleEndian (width n : Nat) :
    ofLittleEndian (littleEndian width n) = n % 256 ^ width := by
  induction width generalizing n with
  | zero => simp [littleEndian, ofLittleEndian, Nat.mod_one]
  | succ width ih =>
    have low : (UInt8.ofNat (n % 256)).toNat = n % 256 := by simp
    rw [littleEndian, ofLittleEndian, ih, low, Nat.pow_succ', Nat.mod_mul]

theorem littleEndian_fits {width n : Nat} (fits : n < 256 ^ width) :
    ofLittleEndian (littleEndian width n) = n := by
  rw [ofLittleEndian_littleEndian, Nat.mod_eq_of_lt fits]

theorem littleEndian_ofLittleEndian (bytes : List UInt8) : littleEndian bytes.length (ofLittleEndian bytes) = bytes := by
  induction bytes with
  | nil => rfl
  | cons b rest ih =>
    have small := b.toNat_lt
    have low : (b.toNat + 256 * ofLittleEndian rest) % 256 = b.toNat := by omega
    have high : (b.toNat + 256 * ofLittleEndian rest) / 256 = ofLittleEndian rest := by omega
    rw [List.length_cons, ofLittleEndian, littleEndian, low, high, ih, UInt8.ofNat_toNat]

theorem ofLittleEndian_lt (bytes : List UInt8) : ofLittleEndian bytes < 256 ^ bytes.length := by
  induction bytes with
  | nil => exact Nat.one_pos
  | cons b rest ih =>
    have small := b.toNat_lt
    rw [List.length_cons, ofLittleEndian, Nat.pow_succ']
    omega

namespace Bytes

@[simp]
theorem size_ofList (bytes : List UInt8) : (ofList bytes).size = bytes.length := by
  simp [ofList]

@[simp]
theorem toList_ofList (bytes : List UInt8) : toList (ofList bytes) = bytes := by
  simp [ofList, toList]

@[simp]
theorem size_u8 (n : UInt8) : (u8 n).size = 1 := by simp [u8]

@[simp]
theorem size_flag (b : Bool) : (flag b).size = 1 := by simp [flag]

@[simp]
theorem size_u16 (n : UInt16) : (u16 n).size = 2 := by simp [u16, littleEndian_length]

@[simp]
theorem size_u32 (n : UInt32) : (u32 n).size = 4 := by simp [u32, littleEndian_length]

@[simp]
theorem size_f64 (x : Binary64) : (f64 x).size = 8 := by simp [f64, littleEndian_length]

@[simp]
theorem number_u8 (n : UInt8) : number (u8 n) = n.toNat := by
  simp [number, u8, ofLittleEndian]

@[simp]
theorem number_u16 (n : UInt16) : number (u16 n) = n.toNat := by
  rw [number, u16, toList_ofList, littleEndian_fits n.toNat_lt]

@[simp]
theorem number_u32 (n : UInt32) : number (u32 n) = n.toNat := by
  rw [number, u32, toList_ofList, littleEndian_fits n.toNat_lt]

theorem u32_number {bytes : ByteArray} (size : bytes.size = 4) : u32 (UInt32.ofNat (number bytes)) = bytes := by
  have length : (toList bytes).length = 4 := size
  have fits : number bytes < 0x100000000 := by
    have lt := ofLittleEndian_lt (toList bytes)
    rwa [length] at lt
  rw [u32, toNat_word fits, number, ← length, littleEndian_ofLittleEndian]
  exact ByteArray.ext (by simp [ofList, toList])

@[simp]
theorem number_f64 (x : Binary64) : number (f64 x) = x.bits.toNat := by
  rw [number, f64, toList_ofList, littleEndian_fits x.bits.toNat_lt]

theorem concat_from (start : ByteArray) (parts : List ByteArray) :
    parts.foldl (· ++ ·) start = start ++ concat parts := by
  induction parts generalizing start with
  | nil => simp [concat]
  | cons part rest ih =>
    simp only [concat, List.foldl_cons] at ih ⊢
    rw [ih (start ++ part), ih (ByteArray.empty ++ part), ByteArray.empty_append,
      ByteArray.append_assoc]

@[simp]
theorem concat_nil : concat [] = .empty := rfl

@[simp]
theorem concat_cons (part : ByteArray) (rest : List ByteArray) :
    concat (part :: rest) = part ++ concat rest := by
  rw [concat, List.foldl_cons, concat_from, ByteArray.empty_append]

@[simp]
theorem concat_append (parts more : List ByteArray) :
    concat (parts ++ more) = concat parts ++ concat more := by
  induction parts with
  | nil => simp
  | cons part rest ih => simp [ih, ByteArray.append_assoc]

end Bytes

structure Holds (data : ByteArray) (offset : Nat) (bytes : ByteArray) : Prop where
  within : offset + bytes.size ≤ data.size
  exact : data.extract offset (offset + bytes.size) = bytes

theorem extract_split (data : ByteArray) (offset first second : Nat) :
    data.extract offset (offset + (first + second)) =
      data.extract offset (offset + first) ++
        data.extract (offset + first) (offset + first + second) := by
  rw [ByteArray.extract_append_extract]
  congr 1 <;> omega

theorem size_extract_within {data : ByteArray} {offset length : Nat}
    (within : offset + length ≤ data.size) : (data.extract offset (offset + length)).size = length := by
  rw [ByteArray.size_extract]
  omega

namespace Holds

theorem whole (data : ByteArray) : Holds data 0 data :=
  ⟨by simp, by simp⟩

theorem append {data : ByteArray} {offset : Nat} {first second : ByteArray} :
    Holds data offset (first ++ second) ↔
      Holds data offset first ∧ Holds data (offset + first.size) second := by
  constructor
  · intro held
    have within := held.within
    rw [ByteArray.size_append] at within
    have parts := held.exact
    rw [ByteArray.size_append, extract_split data offset first.size second.size] at parts
    obtain ⟨left, right⟩ := (ByteArray.append_eq_append_iff_of_size_eq_left
      (size_extract_within (by omega))).mp parts
    exact ⟨⟨by omega, left⟩, ⟨by omega, right⟩⟩
  · rintro ⟨left, right⟩
    have within := right.within
    refine ⟨by rw [ByteArray.size_append]; omega, ?_⟩
    rw [ByteArray.size_append, extract_split data offset first.size second.size,
      left.exact, right.exact]

theorem empty {data : ByteArray} {offset : Nat} : Holds data offset .empty ↔ offset ≤ data.size := by
  constructor
  · intro held
    simpa using held.within
  · intro within
    exact ⟨by simpa using within, by simp⟩

theorem extend {data bytes : ByteArray} {offset : Nat} (held : Holds data offset bytes)
    (more : ByteArray) : Holds (data ++ more) offset bytes := by
  have within := held.within
  refine ⟨by rw [ByteArray.size_append]; omega, ?_⟩
  have untouched : more.extract (offset - data.size) (offset + bytes.size - data.size) = .empty := by
    rw [ByteArray.extract_eq_empty_iff]
    omega
  rw [ByteArray.extract_append, held.exact, untouched, ByteArray.append_empty]

theorem after (before bytes more : ByteArray) : Holds (before ++ bytes ++ more) before.size bytes := by
  have placed : Holds (before ++ bytes) 0 (before ++ bytes) := whole _
  have shifted := (append.mp placed).2
  rw [Nat.zero_add] at shifted
  exact shifted.extend more

theorem part {data bytes inner : ByteArray} {offset start : Nat} (held : Holds data offset bytes)
    (placed : Holds bytes start inner) : Holds data (offset + start) inner := by
  have outer := held.within
  have within := placed.within
  refine ⟨by omega, ?_⟩
  have cut := placed.exact
  have stop : min (offset + (start + inner.size)) (offset + bytes.size) = offset + start + inner.size := by
    omega
  rwa [← held.exact, ByteArray.extract_extract, stop] at cut

end Holds
end PluginBridge
