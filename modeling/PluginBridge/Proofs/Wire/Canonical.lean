import PluginBridge.Proofs.Bytes.Advancing
import PluginBridge.Proofs.Wire.Codec
namespace PluginBridge

theorem Holds.byte {data bytes : ByteArray} {offset i : Nat} {byte : UInt8} (held : Holds data offset bytes)
    (there : bytes.data[i]? = some byte) : data.data[offset + i]? = some byte := by
  have inside : i < bytes.size := (Array.getElem?_eq_some_iff.mp there).1
  have within := held.within
  have room : i < min (offset + bytes.size) data.data.size - offset := by
    rw [ByteArray.size_data]
    omega
  have cut := congrArg (fun part : ByteArray => part.data[i]?) held.exact
  simp only [ByteArray.data_extract, Array.getElem?_extract, if_pos room] at cut
  rw [cut, there]

-- `data` has at `offset` what `encoded` is, but for flags: where one is stored, any byte that is neither
-- zero nor one may stand in place of its own.
structure Spelled (data : ByteArray) (offset : Nat) (flag : Nat → Prop) (encoded : ByteArray) : Prop where
  within : offset + encoded.size ≤ data.size
  differs : ∀ i found written, data.data[offset + i]? = some found → encoded.data[i]? = some written →
    found ≠ written → flag i ∧ found ≠ 0 ∧ found ≠ 1

namespace Spelled
variable {data first second : ByteArray} {offset : Nat} {flag left right : Nat → Prop}

theorem of_held (flag : Nat → Prop) (held : Holds data offset first) : Spelled data offset flag first := by
  refine ⟨held.within, fun i found written there here other => ?_⟩
  rw [held.byte here] at there
  exact absurd (Option.some.inj there).symm other

theorem append (one : Spelled data offset left first) (two : Spelled data (offset + first.size) right second)
    (early : ∀ i, left i → flag i) (late : ∀ i, right i → flag (first.size + i)) :
    Spelled data offset flag (first ++ second) := by
  have within := two.within
  refine ⟨by rw [ByteArray.size_append]; omega, fun i found written there here other => ?_⟩
  rw [ByteArray.data_append, Array.getElem?_append, ByteArray.size_data] at here
  by_cases before : i < first.size
  · rw [if_pos before] at here
    obtain ⟨marked, none⟩ := one.differs i found written there here other
    exact ⟨early i marked, none⟩
  · obtain ⟨j, rfl⟩ := Nat.exists_eq_add_of_le (Nat.not_lt.mp before)
    rw [if_neg before, Nat.add_sub_cancel_left] at here
    rw [← Nat.add_assoc] at there
    obtain ⟨marked, none⟩ := two.differs j found written there here other
    exact ⟨late j marked, none⟩

theorem of_byte {n : UInt8} (held : Holds data offset (Bytes.u8 n)) :
    Spelled data offset (· = 0) (Bytes.flag (n != 0)) := by
  have within := held.within
  rw [Bytes.size_u8] at within
  refine ⟨by rwa [Bytes.size_flag], fun i found written there here other => ?_⟩
  have inside : i < (Bytes.flag (n != 0)).size := (Array.getElem?_eq_some_iff.mp here).1
  obtain rfl : i = 0 := by
    rw [Bytes.size_flag] at inside
    omega
  have byte : data.data[offset + 0]? = some n := held.byte rfl
  rw [there] at byte
  obtain rfl : found = n := Option.some.inj byte
  refine ⟨rfl, ?_, ?_⟩
  · rintro rfl
    exact other (Option.some.inj here)
  · rintro rfl
    exact other (Option.some.inj here)

end Spelled

namespace Cursor
variable {α : Type} {data : ByteArray} {offset stop : Nat}

theorem number_read {width : Nat} (value : Nat → α) {write : α → ByteArray}
    (back : ∀ encoded : ByteArray, encoded.size = width → write (value (Bytes.number encoded)) = encoded) {a : α}
    (read : (do return value (Bytes.number (← bytes data width)) : Reader CodecError α) offset = .ok a stop) :
    Holds data offset (write a) ∧ stop = offset + (write a).size := by
  have keeps := number_keeps_place value back data offset
  rw [read] at keeps
  obtain ⟨_, rfl, held, stops, _⟩ := keeps
  exact ⟨held, stops⟩

theorem u8_read {n : UInt8} (read : u8 data offset = .ok n stop) :
    Holds data offset (Bytes.u8 n) ∧ stop = offset + 1 := by
  have found := number_read UInt8.ofNat (fun _ => Bytes.u8_number) read
  rwa [Bytes.size_u8] at found

theorem u32_read {n : UInt32} (read : u32 data offset = .ok n stop) :
    Holds data offset (Bytes.u32 n) ∧ stop = offset + 4 := by
  have found := number_read UInt32.ofNat (fun _ => Bytes.u32_number) read
  rwa [Bytes.size_u32] at found

theorem f64_read {x : Binary64} (read : f64 data offset = .ok x stop) :
    Holds data offset (Bytes.f64 x) ∧ stop = offset + 8 := by
  have found := number_read (fun n => Binary64.mk (UInt64.ofNat n)) (fun _ => Bytes.f64_number) read
  rwa [Bytes.size_f64] at found

theorem text_read {s place : String} (read : text data place offset = .ok s stop) :
    ∃ encoded, Bytes.text s = .ok encoded ∧ Holds data offset encoded ∧ stop = offset + encoded.size := by
  obtain ⟨t, encoded, stored, held, same⟩ | ⟨length, body, broken⟩ | ⟨e, failed⟩ := text_cases data place offset
  · rw [read] at same
    cases same
    exact ⟨encoded, stored, held, rfl⟩
  · rw [broken.passed place] at read
    cases read
  · rw [failed] at read
    cases read

theorem widen_read {ε ε' : Type} {f : ε → ε'} {reader : Reader ε α} {a : α}
    (read : widen f reader offset = .ok a stop) : reader offset = .ok a stop := by
  unfold widen at read
  split at read
  · rename_i ran
    cases read
    exact ran
  · cases read

end Cursor

namespace WireValue
variable {data encoded : ByteArray} {value : WireValue} {items : List WireValue} {levels offset stop i : Nat}

mutual

-- The positions in the bytes of a value at which a flag is stored: whether a quoted text is escaped, and
-- what a boolean is.
def FlagAt : WireValue → Nat → Prop
  | .quoted _ _ _, i => i = 2
  | .boolean _, i => i = 1
  | .expression items, i => ∃ j, i = 5 + j ∧ FlagAmong items j
  | _, _ => False

def FlagAmong : List WireValue → Nat → Prop
  | [], _ => False
  | item :: rest, i => item.FlagAt i ∨ ∃ bytes j, item.encode = .ok bytes ∧ i = bytes.size + j ∧ FlagAmong rest j

end

theorem codec_read {α : Type} {reader : Reader CodecError α} {a : α} (read : codec reader offset = .ok a stop) :
    reader offset = .ok a stop :=
  Cursor.widen_read read

def ReadFrom (data : ByteArray) (offset : Nat) (value : WireValue) (stop : Nat) : Prop :=
  ∃ encoded, value.encode = .ok encoded ∧ Spelled data offset value.FlagAt encoded ∧ stop = offset + encoded.size

theorem many_read (one : ∀ {offset value stop},
      decodeWithin data levels offset = .ok value stop → ReadFrom data offset value stop)
    {count : Nat} {before values : List WireValue}
    (read : Cursor.many (decodeWithin data levels) count before offset = .ok values stop) (inside : offset ≤ data.size) :
    ∃ items encoded, values = before.reverse ++ items ∧ items.length = count ∧ encodeAll items = .ok encoded ∧
      Spelled data offset (FlagAmong items) encoded ∧ stop = offset + encoded.size := by
  induction count generalizing before offset with
  | zero =>
    cases read
    exact ⟨[], .empty, (List.append_nil _).symm, rfl, rfl, .of_held _ (Holds.empty.mpr inside), rfl⟩
  | succ count ih =>
    simp only [Cursor.many] at read
    cases taken : decodeWithin data levels offset with
    | error e after => simp [taken] at read
    | ok item after =>
      simp only [taken] at read
      obtain ⟨first, written, spelled, rfl⟩ := one taken
      obtain ⟨items, rest, rfl, rfl, others, further, rfl⟩ := ih read spelled.within
      refine ⟨item :: items, first ++ rest, by simp, rfl, ?_, ?_, ?_⟩
      · rw [encodeAll, except_done written, except_done others]
        rfl
      · exact spelled.append further (fun i marked => .inl marked) fun j marked => .inr ⟨first, j, written, rfl, marked⟩
      · rw [ByteArray.size_append, Nat.add_assoc]

theorem ReadFrom.of_held (written : value.encode = .ok encoded) (held : Holds data offset encoded)
    (stops : stop = offset + encoded.size) : ReadFrom data offset value stop :=
  ⟨encoded, written, .of_held _ held, stops⟩

theorem encode_rgb (red green blue : Binary64) : (color ⟨red, green, blue⟩ none).encode =
    .ok (Bytes.u8 2 ++ (Bytes.u8 3 ++ (Bytes.f64 red ++ (Bytes.f64 green ++ Bytes.f64 blue)))) := by
  simp [encode, Rgb.toList]

theorem encode_rgba (red green blue alpha : Binary64) : (color ⟨red, green, blue⟩ (some alpha)).encode =
    .ok (Bytes.u8 2 ++ (Bytes.u8 4 ++ (Bytes.f64 red ++ (Bytes.f64 green ++ (Bytes.f64 blue ++ Bytes.f64 alpha))))) := by
  simp [encode, Rgb.toList]

-- What was read after a tag, put together: one lemma for each tag that several parts follow.
section parts
variable {size : Binary64} {text : String} {body : ByteArray}

theorem ReadFrom.dimension (tag : Holds data offset (Bytes.u8 1)) (number : Holds data (offset + 1) (Bytes.f64 size))
    (stored : Bytes.text text = .ok body) (unit : Holds data (offset + 1 + 8) body) :
    ReadFrom data offset (.dimension size text) (offset + 1 + 8 + body.size) := by
  refine .of_held (except_done stored) ?_ ?_
  · simp only [Holds.append, ByteArray.size_append, Bytes.size_u8, Bytes.size_f64]
    exact ⟨⟨tag, number⟩, unit⟩
  · simp only [ByteArray.size_append, Bytes.size_u8, Bytes.size_f64]
    omega

theorem ReadFrom.color {count : UInt8} {red green blue : Binary64} {alpha : Option Binary64}
    (tag : Holds data offset (Bytes.u8 2)) (counted : Holds data (offset + 1) (Bytes.u8 count))
    (first : Holds data (offset + 1 + 1) (Bytes.f64 red)) (second : Holds data (offset + 1 + 1 + 8) (Bytes.f64 green))
    (third : Holds data (offset + 1 + 1 + 8 + 8) (Bytes.f64 blue))
    (last : count = 3 ∧ alpha = none ∧ stop = offset + 1 + 1 + 8 + 8 + 8 ∨
      ∃ x, count = 4 ∧ alpha = some x ∧ Holds data (offset + 1 + 1 + 8 + 8 + 8) (Bytes.f64 x) ∧
        stop = offset + 1 + 1 + 8 + 8 + 8 + 8) : ReadFrom data offset (.color ⟨red, green, blue⟩ alpha) stop := by
  rcases last with ⟨rfl, rfl, rfl⟩ | ⟨x, rfl, rfl, fourth, rfl⟩
  · refine .of_held (encode_rgb ..) ?_ ?_
    · simp only [Holds.append, Bytes.size_u8, Bytes.size_f64]
      exact ⟨tag, counted, first, second, third⟩
    · simp only [ByteArray.size_append, Bytes.size_u8, Bytes.size_f64]
  · refine .of_held (encode_rgba ..) ?_ ?_
    · simp only [Holds.append, Bytes.size_u8, Bytes.size_f64]
      exact ⟨tag, counted, first, second, third, fourth⟩
    · simp only [ByteArray.size_append, Bytes.size_u8, Bytes.size_f64]

theorem ReadFrom.quoted {quote escaped : UInt8} (tag : Holds data offset (Bytes.u8 3))
    (mark : Holds data (offset + 1) (Bytes.u8 quote)) (flag : Holds data (offset + 1 + 1) (Bytes.u8 escaped))
    (stored : Bytes.text text = .ok body) (inner : Holds data (offset + 1 + 1 + 1) body) :
    ReadFrom data offset (.quoted quote (escaped != 0) text) (offset + 1 + 1 + 1 + body.size) := by
  have front : Holds data offset (Bytes.u8 3 ++ Bytes.u8 quote) := Holds.append.mpr ⟨tag, mark⟩
  have flagged : Spelled data offset (· = 2) (Bytes.u8 3 ++ Bytes.u8 quote ++ Bytes.flag (escaped != 0)) :=
    (Spelled.of_held (fun _ => False) front).append (.of_byte flag) (fun _ => False.elim)
      fun _ first => congrArg (2 + ·) first
  refine ⟨_, except_done stored, flagged.append (.of_held (fun _ => False) inner) (fun _ => id)
    (fun _ => False.elim), ?_⟩
  simp only [ByteArray.size_append, Bytes.size_u8, Bytes.size_flag]
  omega

theorem ReadFrom.expression {count : UInt32} (tag : Holds data offset (Bytes.u8 5))
    (counted : Holds data (offset + 1) (Bytes.u32 count)) (length : items.length = count.toNat)
    (written : encodeAll items = .ok encoded) (spelled : Spelled data (offset + 1 + 4) (FlagAmong items) encoded) :
    ReadFrom data offset (.expression items) (offset + 1 + 4 + encoded.size) := by
  have stored : Bytes.word32? items.length = .ok count := by
    rw [length, word32_done count.toNat_lt, UInt32.ofNat_toNat]
  have front : Holds data offset (Bytes.u8 5 ++ Bytes.u32 count) := Holds.append.mpr ⟨tag, counted⟩
  refine ⟨Bytes.u8 5 ++ Bytes.u32 count ++ encoded, ?_, ?_, ?_⟩
  · rw [encode, except_done stored, except_done written]
    rfl
  · exact (Spelled.of_held (fun _ => False) front).append spelled (fun _ => False.elim)
      fun j marked => ⟨j, rfl, marked⟩
  · simp only [ByteArray.size_append, Bytes.size_u8, Bytes.size_u32]
    omega

theorem ReadFrom.boolean {n : UInt8} (tag : Holds data offset (Bytes.u8 7))
    (flag : Holds data (offset + 1) (Bytes.u8 n)) : ReadFrom data offset (.boolean (n != 0)) (offset + 1 + 1) := by
  have flagged : Spelled data offset (· = 1) (Bytes.u8 7 ++ Bytes.flag (n != 0)) :=
    (Spelled.of_held (fun _ => False) tag).append (.of_byte flag) (fun _ => False.elim)
      fun _ first => congrArg (1 + ·) first
  exact ⟨_, rfl, flagged, rfl⟩

end parts

theorem decodeWithin_read {value : WireValue} (read : decodeWithin data levels offset = .ok value stop) :
    ReadFrom data offset value stop := by
  induction levels generalizing offset value stop with
  | zero => cases read
  | succ levels ih =>
    simp only [decodeWithin] at read
    obtain ⟨tag, _, tagged, read⟩ := bind_parts read
    obtain ⟨tagHeld, rfl⟩ := Cursor.u8_read (codec_read tagged)
    -- One case for each tag in their order, the last one for bytes that are no tag.
    split at read
    · cases read
      exact .of_held rfl tagHeld rfl
    · obtain ⟨size, _, number, read⟩ := bind_parts read
      obtain ⟨unit, _, text, read⟩ := bind_parts read
      cases read
      obtain ⟨numberHeld, rfl⟩ := Cursor.f64_read (codec_read number)
      obtain ⟨encoded, stored, textHeld, rfl⟩ := Cursor.text_read (codec_read text)
      exact .dimension tagHeld numberHeld stored textHeld
    · obtain ⟨count, _, counted, read⟩ := bind_parts read
      obtain ⟨countHeld, rfl⟩ := Cursor.u8_read (codec_read counted)
      split at read
      · cases read
      · rename_i few
        obtain ⟨red, _, first, read⟩ := bind_parts read
        obtain ⟨green, _, second, read⟩ := bind_parts read
        obtain ⟨blue, _, third, read⟩ := bind_parts read
        obtain ⟨redHeld, rfl⟩ := Cursor.f64_read (codec_read first)
        obtain ⟨greenHeld, rfl⟩ := Cursor.f64_read (codec_read second)
        obtain ⟨blueHeld, rfl⟩ := Cursor.f64_read (codec_read third)
        -- A fourth component is the alpha.
        by_cases four : count = 4
        · subst four
          rw [if_pos rfl, map_eq_pure_bind] at read
          obtain ⟨alpha, _, last, read⟩ := bind_parts read
          obtain ⟨opacity, _, fourth, last⟩ := bind_parts last
          cases last
          cases read
          obtain ⟨alphaHeld, rfl⟩ := Cursor.f64_read (codec_read fourth)
          exact .color tagHeld countHeld redHeld greenHeld blueHeld (.inr ⟨opacity, rfl, rfl, alphaHeld, rfl⟩)
        · obtain rfl : count = 3 := by
            by_contra three
            exact few ⟨three, four⟩
          cases read
          exact .color tagHeld countHeld redHeld greenHeld blueHeld (.inl ⟨rfl, rfl, rfl⟩)
    · obtain ⟨quote, _, mark, read⟩ := bind_parts read
      obtain ⟨escaped, _, flag, read⟩ := bind_parts read
      obtain ⟨s, _, text, read⟩ := bind_parts read
      cases read
      obtain ⟨markHeld, rfl⟩ := Cursor.u8_read (codec_read mark)
      obtain ⟨flagHeld, rfl⟩ := Cursor.u8_read (codec_read flag)
      obtain ⟨encoded, stored, textHeld, rfl⟩ := Cursor.text_read (codec_read text)
      exact .quoted tagHeld markHeld flagHeld stored textHeld
    · obtain ⟨s, _, text, read⟩ := bind_parts read
      cases read
      obtain ⟨encoded, stored, textHeld, rfl⟩ := Cursor.text_read (codec_read text)
      refine .of_held (except_done stored) (Holds.append.mpr ⟨tagHeld, textHeld⟩) ?_
      rw [ByteArray.size_append, Bytes.size_u8, Nat.add_assoc]
    · obtain ⟨count, _, counted, read⟩ := bind_parts read
      obtain ⟨countHeld, rfl⟩ := Cursor.u32_read (codec_read counted)
      simp only [bind_done (get_done _)] at read
      split at read
      · cases read
      · obtain ⟨all, _, taken, read⟩ := bind_parts read
        cases read
        obtain ⟨_, encoded, rfl, length, written, spelled, rfl⟩ := many_read ih taken countHeld.within
        exact .expression tagHeld countHeld length written spelled
    · obtain ⟨size, _, number, read⟩ := bind_parts read
      cases read
      obtain ⟨numberHeld, rfl⟩ := Cursor.f64_read (codec_read number)
      exact .of_held rfl (Holds.append.mpr ⟨tagHeld, numberHeld⟩) rfl
    · obtain ⟨n, _, flag, read⟩ := bind_parts read
      cases read
      obtain ⟨flagHeld, rfl⟩ := Cursor.u8_read (codec_read flag)
      exact .boolean tagHeld flagHeld
    · cases read

theorem flag_written {flag : Bool} (held : Holds encoded offset (Bytes.flag flag)) :
    ∃ written, encoded.data[offset]? = some written ∧ (written = 0 ∨ written = 1) := by
  cases flag with
  | false =>
    have zero : encoded.data[offset + 0]? = some 0 := held.byte rfl
    exact ⟨0, zero, .inl rfl⟩
  | true =>
    have one : encoded.data[offset + 0]? = some 1 := held.byte rfl
    exact ⟨1, one, .inr rfl⟩

mutual

theorem flagAt_written : ∀ {value : WireValue} {encoded : ByteArray} {i : Nat}, value.encode = .ok encoded →
    value.FlagAt i → ∃ written, encoded.data[i]? = some written ∧ (written = 0 ∨ written = 1)
  | .quoted _ _ _, encoded, _, written, rfl => by
    obtain ⟨body, _, written⟩ := except_parts written
    cases written
    exact flag_written (Holds.append.mp (Holds.append.mp (Holds.whole _)).1).2
  | .boolean _, encoded, _, written, rfl => by
    cases written
    exact flag_written (Holds.append.mp (Holds.whole _)).2
  | .expression items, encoded, _, written, ⟨j, rfl, marked⟩ => by
    obtain ⟨count, _, written⟩ := except_parts written
    obtain ⟨inner, among, written⟩ := except_parts written
    cases written
    obtain ⟨byte, there, either⟩ := flagAmong_written among marked
    exact ⟨byte, (Holds.append.mp (Holds.whole _)).2.byte there, either⟩

theorem flagAmong_written : ∀ {items : List WireValue} {encoded : ByteArray} {i : Nat}, encodeAll items = .ok encoded →
    FlagAmong items i → ∃ written, encoded.data[i]? = some written ∧ (written = 0 ∨ written = 1)
  | [], _, _, _, marked => marked.elim
  | item :: rest, encoded, i, written, marked => by
    rw [encodeAll] at written
    obtain ⟨first, one, written⟩ := except_parts written
    obtain ⟨others, more, written⟩ := except_parts written
    cases written
    obtain ⟨front, back⟩ := Holds.append.mp (Holds.whole (first ++ others))
    rw [Nat.zero_add] at back
    rcases marked with here | ⟨bytes, j, same, rfl, later⟩
    · obtain ⟨byte, there, either⟩ := flagAt_written one here
      exact ⟨byte, Nat.zero_add i ▸ front.byte there, either⟩
    · cases one.symm.trans same
      obtain ⟨byte, there, either⟩ := flagAmong_written more later
      exact ⟨byte, back.byte there, either⟩

end

-- Whatever was read takes at least a byte and nothing outside of the data. What is written for it is as long and
-- is read as the same value, and it is what was read but for the flags that were neither zero nor one.
theorem decode_canonical (read : decode data offset = .ok value stop) :
    offset < stop ∧ stop ≤ data.size ∧ ∃ encoded, value.encode = .ok encoded ∧ offset + encoded.size = stop ∧
      decode encoded 0 = .ok value encoded.size ∧
      ∀ i found written, data.data[offset + i]? = some found → encoded.data[i]? = some written →
        (found ≠ written ↔ value.FlagAt i ∧ found ≠ 0 ∧ found ≠ 1) := by
  obtain ⟨encoded, written, spelled, rfl⟩ := decodeWithin_read read
  have some_ := encode_size written
  have shallow := decodeWithin_gives data (maxDepth + 1) _ _ _ read
  have again := decode_held written shallow (Holds.whole encoded)
  rw [Nat.zero_add] at again
  refine ⟨by omega, spelled.within, encoded, written, rfl, again, fun i found stored there here => ⟨?_, ?_⟩⟩
  · exact spelled.differs i found stored there here
  · rintro ⟨marked, notZero, notOne⟩ rfl
    obtain ⟨own, known, either⟩ := flagAt_written written marked
    rw [here] at known
    cases known
    exact either.elim notZero notOne

-- Bytes in the middle of others: an escaped text whose flag is seven, and a boolean of 255. Both are written as one.
theorem decode_canonical_nested : ∃ encoded,
    decode (Bytes.ofList [9, 5, 2, 0, 0, 0, 3, 34, 7, 0, 0, 0, 0, 7, 255, 9]) 1 =
      .ok (.expression [.quoted 34 true "", .boolean true]) 15 ∧
    (expression [.quoted 34 true "", .boolean true]).encode = .ok encoded ∧ 1 + encoded.size = 15 ∧
    decode encoded 0 = .ok (.expression [.quoted 34 true "", .boolean true]) encoded.size ∧
    encoded.data[7]? = some 1 ∧ encoded.data[13]? = some 1 := by
  have read : decode (Bytes.ofList [9, 5, 2, 0, 0, 0, 3, 34, 7, 0, 0, 0, 0, 7, 255, 9]) 1 =
    .ok (.expression [.quoted 34 true "", .boolean true]) 15 := rfl
  obtain ⟨_, _, encoded, written, size, again, -⟩ := decode_canonical read
  refine ⟨encoded, read, written, size, again, ?_⟩
  cases written
  exact ⟨rfl, rfl⟩

end WireValue
end PluginBridge
