import PluginBridge.Proofs.Bytes.Readers
namespace PluginBridge

namespace Bytes
variable {bytes : ByteArray}

theorem number_fits {width : Nat} (size : bytes.size = width) : number bytes < 256 ^ width := by
  have lt := ofLittleEndian_lt (toList bytes)
  have length : (toList bytes).length = width := size
  rwa [length] at lt

theorem littleEndian_number {width : Nat} (size : bytes.size = width) :
    ofList (littleEndian width (number bytes)) = bytes := by
  have length : (toList bytes).length = width := size
  rw [number, ← length, littleEndian_ofLittleEndian]
  exact ByteArray.ext (by simp [ofList, toList])

theorem u8_number (size : bytes.size = 1) : u8 (UInt8.ofNat (number bytes)) = bytes := by
  have small : number bytes % 256 = number bytes := Nat.mod_eq_of_lt (number_fits size)
  have written := littleEndian_number size
  rwa [littleEndian, littleEndian, small] at written

theorem u16_number (size : bytes.size = 2) : u16 (UInt16.ofNat (number bytes)) = bytes := by
  rw [u16, UInt16.toNat_ofNat_of_lt' (number_fits size), littleEndian_number size]

theorem f64_number (size : bytes.size = 8) : f64 ⟨UInt64.ofNat (number bytes)⟩ = bytes := by
  rw [f64, UInt64.toNat_ofNat_of_lt' (number_fits size), littleEndian_number size]

end Bytes

namespace Cursor
variable {α : Type} {data : ByteArray} {offset : Nat}

-- A read that found a value stops, still in the data, behind the bytes that the value
-- occupies there; one that failed stands where it started.
def KeepsPlace (data : ByteArray) (encodes : α → ByteArray → Prop) (offset : Nat) :
    EStateM.Result CodecError Nat α → Prop
  | .ok a after => ∃ encoded, encodes a encoded ∧ Holds data offset encoded ∧
      after = offset + encoded.size ∧ after ≤ data.size
  | .error _ after => after = offset

structure BrokenText (data : ByteArray) (offset : Nat) (length : UInt32) (body : ByteArray) : Prop where
  held : Holds data offset (Bytes.u32 length ++ body)
  counted : body.size = length.toNat
  invalid : ¬ body.IsValidUTF8

theorem bytes_cases (data : ByteArray) (length offset : Nat) :
    (∃ encoded, encoded.size = length ∧ Holds data offset encoded ∧
      bytes data length offset = .ok encoded (offset + length)) ∨
    (∃ e, bytes data length offset = .error e offset) := by
  unfold bytes
  split
  · rename_i within
    have size := size_extract_within within
    exact .inl ⟨_, size, ⟨by rwa [size], by rw [size]⟩, rfl⟩
  · exact .inr ⟨_, rfl⟩

theorem bytes_keeps_place (data : ByteArray) (length offset : Nat) :
    KeepsPlace data (fun found encoded => found = encoded ∧ encoded.size = length) offset
      (bytes data length offset) := by
  obtain ⟨encoded, size, held, read⟩ | ⟨e, read⟩ := bytes_cases data length offset
  · rw [read]
    refine ⟨encoded, ⟨rfl, size⟩, held, by rw [size], ?_⟩
    rw [← size]
    exact held.within
  · rw [read]
    rfl

theorem number_keeps_place {width : Nat} (value : Nat → α) {write : α → ByteArray}
    (back : ∀ encoded : ByteArray, encoded.size = width → write (value (Bytes.number encoded)) = encoded)
    (data : ByteArray) (offset : Nat) :
    KeepsPlace data (fun found encoded => encoded = write found) offset
      ((do return value (Bytes.number (← bytes data width)) : Reader CodecError α) offset) := by
  obtain ⟨encoded, size, held, read⟩ | ⟨e, read⟩ := bytes_cases data width offset
  · rw [bind_done read]
    refine ⟨encoded, (back encoded size).symm, held, by rw [size], ?_⟩
    rw [← size]
    exact held.within
  · rw [bind_failed read]
    rfl

theorem u32_cases (data : ByteArray) (offset : Nat) :
    (∃ value, Holds data offset (Bytes.u32 value) ∧ u32 data offset = .ok value (offset + 4)) ∨
    (∃ e, u32 data offset = .error e offset) := by
  obtain ⟨encoded, size, held, read⟩ | ⟨e, read⟩ := bytes_cases data 4 offset
  · rw [← Bytes.u32_number size] at held
    exact .inl ⟨_, held, Reads.u32 _ held⟩
  · exact .inr ⟨e, bind_failed read⟩

theorem text_cases (data : ByteArray) (place : String) (offset : Nat) :
    (∃ s encoded, Bytes.text s = .ok encoded ∧ Holds data offset encoded ∧
      text data place offset = .ok s (offset + encoded.size)) ∨
    (∃ length body, BrokenText data offset length body) ∨
    (∃ e, text data place offset = .error e offset) := by
  obtain ⟨length, front, counted⟩ | ⟨e, counted⟩ := u32_cases data offset
  · obtain ⟨body, size, back, read⟩ | ⟨e, read⟩ := bytes_cases data length.toNat (offset + 4)
    · have held : Holds data offset (Bytes.u32 length ++ body) :=
        Holds.append.mpr ⟨front, by rwa [Bytes.size_u32]⟩
      by_cases valid : body.IsValidUTF8
      · have counted : String.utf8ByteSize ⟨body, valid⟩ = length.toNat := size
        have stored : Bytes.text ⟨body, valid⟩ = .ok (Bytes.u32 length ++ body) := by
          rw [Bytes.text, except_done (word32_done (counted ▸ length.toNat_lt)), counted,
            UInt32.ofNat_toNat]
          rfl
        exact .inl ⟨_, _, stored, held, Reads.text stored held⟩
      · exact .inr (.inl ⟨length, body, held, size, valid⟩)
    · exact .inr (.inr ⟨e, by simp only [text, counted, read]⟩)
  · exact .inr (.inr ⟨e, by simp only [text, counted]⟩)

theorem BrokenText.passed {length : UInt32} {body : ByteArray} (broken : BrokenText data offset length body)
    (place : String) : text data place offset = .error (.invalidUtf8 place) (offset + 4 + body.size) := by
  obtain ⟨front, back⟩ := Holds.append.mp broken.held
  have counted := Reads.u32 length front
  have read := Reads.bytes body back
  rw [Bytes.size_u32] at counted read
  rw [broken.counted] at read
  have none : String.fromUTF8? body = none := dif_neg broken.invalid
  simp only [text, counted, read, none, broken.counted]

theorem text_keeps_place_iff (data : ByteArray) (place : String) (offset : Nat) :
    KeepsPlace data (fun s encoded => Bytes.text s = .ok encoded) offset (text data place offset) ↔
      ∀ length body, ¬ BrokenText data offset length body := by
  constructor
  · intro keeps length body broken
    rw [broken.passed place, KeepsPlace] at keeps
    omega
  · intro sound
    obtain ⟨s, encoded, stored, held, read⟩ | ⟨length, body, broken⟩ | ⟨e, read⟩ :=
      text_cases data place offset
    · rw [read]
      exact ⟨encoded, stored, held, rfl, held.within⟩
    · exact absurd broken (sound length body)
    · rw [read]
      rfl

-- From every offset every reader keeps its place, up to a text whose bytes are all there and
-- are no text: behind those bytes the cursor stays, although the read has failed.
theorem keep_place (data : ByteArray) (place : String) (length offset : Nat) :
    KeepsPlace data (fun found encoded => found = encoded ∧ encoded.size = length) offset
      (bytes data length offset) ∧
    KeepsPlace data (fun n encoded => encoded = Bytes.u8 n) offset (u8 data offset) ∧
    KeepsPlace data (fun n encoded => encoded = Bytes.u16 n) offset (u16 data offset) ∧
    KeepsPlace data (fun n encoded => encoded = Bytes.u32 n) offset (u32 data offset) ∧
    KeepsPlace data (fun x encoded => encoded = Bytes.f64 x) offset (f64 data offset) ∧
    (KeepsPlace data (fun s encoded => Bytes.text s = .ok encoded) offset (text data place offset) ↔
      ∀ length body, ¬ BrokenText data offset length body) ∧
    ∀ length body, BrokenText data offset length body →
      text data place offset = .error (.invalidUtf8 place) (offset + 4 + body.size) := by
  refine ⟨bytes_keeps_place data length offset, ?_, ?_, ?_, ?_, text_keeps_place_iff data place offset,
    fun _ _ broken => broken.passed place⟩
  · exact number_keeps_place UInt8.ofNat (fun _ => Bytes.u8_number) data offset
  · exact number_keeps_place UInt16.ofNat (fun _ => Bytes.u16_number) data offset
  · exact number_keeps_place UInt32.ofNat (fun _ => Bytes.u32_number) data offset
  · exact number_keeps_place (fun n => Binary64.mk (UInt64.ofNat n)) (fun _ => Bytes.f64_number) data offset

theorem text_leaves_place :
    ¬ KeepsPlace (Bytes.u32 1 ++ Bytes.u8 255) (fun s encoded => Bytes.text s = .ok encoded) 0
      (text (Bytes.u32 1 ++ Bytes.u8 255) "text" 0) := by
  have broken : BrokenText (Bytes.u32 1 ++ Bytes.u8 255) 0 1 (Bytes.u8 255) :=
    ⟨Holds.whole _, rfl, by decide⟩
  rw [broken.passed "text", KeepsPlace]
  decide

end Cursor
end PluginBridge
