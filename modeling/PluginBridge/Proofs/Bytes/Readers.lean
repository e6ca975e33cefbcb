import Mathlib.Data.List.Forall2
import PluginBridge.Bytes.Cursor
import PluginBridge.Proofs.Bytes.Words
import PluginBridge.Proofs.Outcome
namespace PluginBridge

theorem word32_fits {n : Nat} {word : UInt32} (stored : Bytes.word32? n = .ok word) :
    n < 0x100000000 ∧ word = UInt32.ofNat n := by
  unfold Bytes.word32? at stored
  split at stored
  · rename_i fits
    cases stored
    exact ⟨fits, rfl⟩
  · cases stored

theorem word32_done {n : Nat} (fits : n < 0x100000000) : Bytes.word32? n = .ok (UInt32.ofNat n) :=
  if_pos fits

theorem word32_number {n : Nat} {word : UInt32} (stored : Bytes.word32? n = .ok word) :
    word.toNat = n := by
  obtain ⟨fits, rfl⟩ := word32_fits stored
  exact toNat_word fits

theorem word_held {data : ByteArray} {offset : Nat} (within : offset + 4 ≤ data.size) :
    ∃ value, Holds data offset (Bytes.u32 value) := by
  have size := size_extract_within within
  refine ⟨UInt32.ofNat (Bytes.number (data.extract offset (offset + 4))), ?_⟩
  rw [Bytes.u32_number size]
  exact ⟨by rwa [size], by rw [size]⟩

theorem utf8_back (s : String) : String.fromUTF8? s.toUTF8 = some s := by
  have valid : s.toUTF8.IsValidUTF8 := s.isValidUTF8
  rw [String.fromUTF8?, dif_pos valid]
  rfl

theorem text_stored {s : String} {encoded : ByteArray} (stored : Bytes.text s = .ok encoded) :
    ∃ length : UInt32, length.toNat = s.utf8ByteSize ∧ encoded = Bytes.u32 length ++ s.toUTF8 := by
  obtain ⟨length, counted, written⟩ := except_parts stored
  cases written
  exact ⟨length, word32_number counted, rfl⟩

namespace Cursor
variable {data encoded : ByteArray} {offset : Nat}

-- What a reader makes of a part wherever it stands: the value, with the cursor behind the part.
def Reads {ε α : Type} (data : ByteArray) (reader : Reader ε α) (value : α) (part : ByteArray) : Prop :=
  ∀ ⦃offset : Nat⦄, Holds data offset part → reader offset = .ok value (offset + part.size)

namespace Reads
variable {ε ε' α β : Type} {reader : Reader ε α} {next : α → Reader ε β} {a : α} {b : β}
  {part front back : ByteArray}

theorem pure (a : α) : Reads data (Pure.pure a : Reader ε α) a .empty := fun _ _ => rfl

theorem bind (first : Reads data reader a front) (rest : Reads data (next a) b back) :
    Reads data (reader >>= next) b (front ++ back) := by
  intro offset held
  obtain ⟨before, behind⟩ := Holds.append.mp held
  rw [bind_done (first before), rest behind, ByteArray.size_append, Nat.add_assoc]

theorem map (read : Reads data reader a part) (f : α → β) :
    Reads data (do return f (← reader)) (f a) part := by
  intro offset held
  rw [bind_done (read held)]
  rfl

theorem widen (read : Reads data reader a part) (f : ε → ε') : Reads data (Cursor.widen f reader) a part := by
  intro offset held
  simp only [Cursor.widen, read held]

theorem enough {count : Nat} (room : count ≤ part.size) (read : Reads data reader a part) (fault : ε) :
    Reads data (do
      let offset ← get
      if data.size - offset < count then throw fault
      reader) a part := by
  intro offset held
  have within := held.within
  have fits : ¬ data.size - offset < count := by omega
  rw [bind_done (get_done _), if_neg fits]
  exact read held

theorem bytes (encoded : ByteArray) : Reads data (Cursor.bytes data encoded.size) encoded encoded := by
  intro offset held
  simp only [Cursor.bytes, if_pos held.within, held.exact]

theorem number {width : Nat} (value : Nat → α) (size : part.size = width) (back : value (Bytes.number part) = a) :
    Reads data (do return value (Bytes.number (← Cursor.bytes data width))) a part := by
  subst size back
  exact (bytes part).map fun read => value (Bytes.number read)

theorem u8 (n : UInt8) : Reads data (Cursor.u8 data) n (Bytes.u8 n) :=
  number UInt8.ofNat (Bytes.size_u8 n) (by rw [Bytes.number_u8, UInt8.ofNat_toNat])

theorem u16 (n : UInt16) : Reads data (Cursor.u16 data) n (Bytes.u16 n) :=
  number UInt16.ofNat (Bytes.size_u16 n) (by rw [Bytes.number_u16, UInt16.ofNat_toNat])

theorem u32 (n : UInt32) : Reads data (Cursor.u32 data) n (Bytes.u32 n) :=
  number UInt32.ofNat (Bytes.size_u32 n) (by rw [Bytes.number_u32, UInt32.ofNat_toNat])

theorem f64 (x : Binary64) : Reads data (Cursor.f64 data) x (Bytes.f64 x) :=
  number (fun n => Binary64.mk (UInt64.ofNat n)) (Bytes.size_f64 x) (by rw [Bytes.number_f64, UInt64.ofNat_toNat])

theorem flag (b : Bool) : ∃ n : UInt8, Reads data (Cursor.u8 data) n (Bytes.flag b) ∧ (n != 0) = b := by
  cases b with
  | false => exact ⟨0, u8 0, rfl⟩
  | true => exact ⟨1, u8 1, rfl⟩

theorem text {s place : String} (stored : Bytes.text s = .ok encoded) :
    Reads data (Cursor.text data place) s encoded := by
  intro offset held
  obtain ⟨length, counted, rfl⟩ := text_stored stored
  obtain ⟨front, body⟩ := Holds.append.mp held
  have read := bytes s.toUTF8 body
  have size : s.toUTF8.size = length.toNat := counted.symm
  rw [size] at read
  simp only [Cursor.text, u32 length front, read, utf8_back]
  rw [ByteArray.size_append, size, Nat.add_assoc]

theorem many {item : Reader ε α} {values : List α} {parts : List ByteArray}
    (each : List.Forall₂ (Reads data item) values parts) (read : List α) :
    Reads data (Cursor.many item values.length read) (read.reverse ++ values) (Bytes.concat parts) := by
  intro offset held
  induction each generalizing offset read with
  | nil => simp [Cursor.many]
  | cons here _ ih =>
    rename_i value part values parts _
    rw [Bytes.concat_cons] at held
    obtain ⟨front, back⟩ := Holds.append.mp held
    simp only [List.length_cons, Cursor.many, here front]
    rw [ih (value :: read) back, Bytes.concat_cons, ByteArray.size_append, Nat.add_assoc]
    simp

theorem run (read : Reads data reader a part) (held : Holds data 0 part) : Cursor.run reader 0 = .ok a := by
  rw [Cursor.run, read held]

end Reads

theorem bytes_parts {length stop : Nat} (read : bytes data length offset = .ok encoded stop) :
    offset + length ≤ data.size ∧ encoded.size = length := by
  unfold bytes at read
  split at read
  · rename_i within
    cases read
    exact ⟨within, size_extract_within within⟩
  · cases read

theorem many_length {ε α : Type} {item : Reader ε α} {count stop : Nat} {before values : List α}
    (read : many item count before offset = .ok values stop) :
    values.length = before.length + count := by
  induction count generalizing before offset with
  | zero =>
    cases read
    simp
  | succ count ih =>
    simp only [many] at read
    split at read
    · rw [ih read, List.length_cons]
      omega
    · cases read

end Cursor
end PluginBridge
