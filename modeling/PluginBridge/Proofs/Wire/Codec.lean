import Mathlib.Logic.Function.Iterate
import PluginBridge.Proofs.Bytes.Extension
import PluginBridge.Proofs.Wire.Values
namespace PluginBridge

theorem text_done {s : String} (fits : s.utf8ByteSize < 0x100000000) :
    ∃ encoded, Bytes.text s = .ok encoded := by
  unfold Bytes.text
  rw [except_done (word32_done fits)]
  exact ⟨_, rfl⟩

theorem text_fits {s : String} {encoded : ByteArray} (stored : Bytes.text s = .ok encoded) : s.utf8ByteSize < 0x100000000 := by
  unfold Bytes.text at stored
  obtain ⟨count, counted, _⟩ := except_parts stored
  exact (word32_fits counted).1

theorem text_overlong {s : String} (long : 0x100000000 ≤ s.utf8ByteSize) : Bytes.text s = .error .tooLarge := by
  have refused : Bytes.word32? s.utf8ByteSize = .error .tooLarge := if_neg (Nat.not_lt.mpr long)
  rw [Bytes.text, refused]
  rfl

theorem repeated_size {c : Char} (single : c.utf8Size = 1) (n : Nat) :
    (String.ofList (List.replicate n c)).utf8ByteSize = n := by
  induction n with
  | zero => rfl
  | succ n ih =>
    rw [List.replicate_succ, String.ofList_cons, String.utf8ByteSize_append, String.utf8ByteSize_singleton, single, ih,
      Nat.add_comm]

def ProtocolError.FromPeer : ProtocolError → Prop
  | .peer _ => True
  | _ => False

namespace WireValue

mutual

def Fits : WireValue → Prop
  | .dimension _ unit => unit.utf8ByteSize < 0x100000000
  | .quoted _ _ text => text.utf8ByteSize < 0x100000000
  | .keyword text => text.utf8ByteSize < 0x100000000
  | .expression items => items.length < 0x100000000 ∧ AllFit items
  | _ => True

def AllFit : List WireValue → Prop
  | [] => True
  | item :: rest => Fits item ∧ AllFit rest

end

mutual

theorem encode_done : ∀ {value : WireValue}, value.Fits → ∃ encoded, value.encode = .ok encoded
  | .null, _ => ⟨_, rfl⟩
  | .dimension _ _, fits => by
    obtain ⟨text, stored⟩ := text_done fits
    rw [encode, except_done stored]
    exact ⟨_, rfl⟩
  | .color _ _, _ => ⟨_, rfl⟩
  | .quoted _ _ _, fits => by
    obtain ⟨text, stored⟩ := text_done fits
    rw [encode, except_done stored]
    exact ⟨_, rfl⟩
  | .keyword _, fits => by
    obtain ⟨text, stored⟩ := text_done fits
    rw [encode, except_done stored]
    exact ⟨_, rfl⟩
  | .expression _, ⟨few, each⟩ => by
    obtain ⟨inner, written⟩ := encodeAll_done each
    rw [encode, except_done (word32_done few), except_done written]
    exact ⟨_, rfl⟩
  | .number _, _ => ⟨_, rfl⟩
  | .boolean _, _ => ⟨_, rfl⟩

theorem encodeAll_done : ∀ {items : List WireValue}, AllFit items →
    ∃ encoded, encodeAll items = .ok encoded
  | [], _ => ⟨_, rfl⟩
  | _ :: _, ⟨first, rest⟩ => by
    obtain ⟨one, written⟩ := encode_done first
    obtain ⟨others, more⟩ := encodeAll_done rest
    rw [encodeAll, except_done written, except_done more]
    exact ⟨_, rfl⟩

end

mutual

theorem encode_fits : ∀ {value : WireValue} {encoded : ByteArray}, value.encode = .ok encoded → value.Fits
  | .null, _, _ => trivial
  | .dimension _ _, _, written => by
    rw [encode] at written
    obtain ⟨_, stored, _⟩ := except_parts written
    exact text_fits stored
  | .color _ _, _, _ => trivial
  | .quoted _ _ _, _, written => by
    rw [encode] at written
    obtain ⟨_, stored, _⟩ := except_parts written
    exact text_fits stored
  | .keyword _, _, written => by
    rw [encode] at written
    obtain ⟨_, stored, _⟩ := except_parts written
    exact text_fits stored
  | .expression _, _, written => by
    rw [encode] at written
    obtain ⟨_, counted, written⟩ := except_parts written
    obtain ⟨_, each, _⟩ := except_parts written
    exact ⟨(word32_fits counted).1, encodeAll_fits each⟩
  | .number _, _, _ => trivial
  | .boolean _, _, _ => trivial

theorem encodeAll_fits : ∀ {items : List WireValue} {encoded : ByteArray}, encodeAll items = .ok encoded → AllFit items
  | [], _, _ => trivial
  | _ :: _, _, written => by
    rw [encodeAll] at written
    obtain ⟨_, first, written⟩ := except_parts written
    obtain ⟨_, rest, _⟩ := except_parts written
    exact ⟨encode_fits first, encodeAll_fits rest⟩

end

theorem codec_confined {α : Type} {reader : ByteArray → Reader CodecError α}
    (one : Confined reader) : Confined fun data => codec (reader data) :=
  Confined.widen ProtocolError.codec one

theorem items_confined {levels : Nat} (inner : Confined fun data => decodeWithin data levels)
    (count : UInt32) : Confined fun data => do
      let offset ← get
      if data.size - offset < count.toNat then throw (.malformed (.itemCount count))
      return WireValue.expression (← Cursor.many (decodeWithin data levels) count.toNat []) := by
  have items : Confined fun data => do
      return WireValue.expression (← Cursor.many (decodeWithin data levels) count.toNat []) :=
    (inner.many count.toNat []).bind fun _ => .pure _
  constructor
  · intro data more offset value stop read
    simp only [bind_done (get_done _)] at read ⊢
    split at read
    · cases read
    · rw [if_neg (by rw [ByteArray.size_append]; omega)]
      exact items.stable data more offset value stop read
  · intro data offset value stop within read
    simp only [bind_done (get_done _)] at read
    split at read
    · cases read
    · exact items.inside data offset value stop within read

theorem decodeWithin_confined (levels : Nat) : Confined fun data => decodeWithin data levels := by
  induction levels with
  | zero => exact .throw _
  | succ levels ih =>
    have byte := codec_confined Confined.u8
    have word := codec_confined Confined.u32
    have number := codec_confined Confined.f64
    have text := fun place => codec_confined (Confined.text place)
    simp only [decodeWithin]
    refine byte.bind fun tag => ?_
    -- One case for each tag, the last for bytes that are no tag.
    split
    · exact .pure _
    · exact number.bind fun _ => (text _).bind fun _ => .pure _
    · refine byte.bind fun count => .checked ?_
      refine number.bind fun red => number.bind fun green => number.bind fun blue => ?_
      exact .branch ((number.map some).bind fun _ => .pure _) (.pure _)
    · exact byte.bind fun _ => byte.bind fun _ => (text _).bind fun _ => .pure _
    · exact (text _).bind fun _ => .pure _
    · exact word.bind fun count => items_confined ih count
    · exact number.bind fun _ => .pure _
    · exact byte.bind fun _ => .pure _
    · exact .throw _

section deeper
variable {ε α : Type} {data encoded : ByteArray} {value found : WireValue}

theorem many_deeper {item deeper : Reader ε α}
    (same : ∀ start a stop, item start = .ok a stop → deeper start = .ok a stop) (count : Nat) (read : List α) :
    ∀ start all stop, Cursor.many item count read start = .ok all stop →
      Cursor.many deeper count read start = .ok all stop := by
  induction count generalizing read with
  | zero => exact fun _ _ _ ran => ran
  | succ count ih =>
    intro start all stop ran
    simp only [Cursor.many] at ran ⊢
    cases taken : item start with
    | error e after => simp [taken] at ran
    | ok a after =>
      simp only [taken] at ran
      simp only [same start a after taken]
      exact ih _ _ _ _ ran

theorem decodeWithin_deeper {levels more : Nat} (deep : levels ≤ more) :
    ∀ offset value stop, decodeWithin data levels offset = .ok value stop →
      decodeWithin data more offset = .ok value stop := by
  induction levels generalizing more with
  | zero =>
    rintro offset value stop ⟨⟩
  | succ levels ih =>
    obtain ⟨more, rfl⟩ := Nat.exists_eq_add_of_le' deep
    intro offset value stop read
    rw [decodeWithin] at read
    rw [← Nat.add_assoc, decodeWithin]
    obtain ⟨tag, middle, tagged, read⟩ := bind_parts read
    rw [bind_done tagged]
    by_cases items : tag = 5
    · subst items
      simp only at read ⊢
      obtain ⟨count, start, counted, read⟩ := bind_parts read
      rw [bind_done counted]
      simp only [bind_done (get_done _)] at read ⊢
      split at read
      · cases read
      · rename_i enough
        rw [if_neg enough]
        obtain ⟨all, last, taken, read⟩ := bind_parts read
        rw [bind_done (many_deeper (fun start a stop => ih (Nat.le_add_left levels more) start a stop) _ [] _ _ _ taken)]
        exact read
    · -- Of the other kinds of values none reads further ones.
      split at read <;> first | exact absurd rfl items | exact read

theorem ofBytes_only (written : value.encode = .ok encoded) (held : Holds data 0 encoded)
    (read : ofBytes data = .ok found) : found = value := by
  rw [ofBytes, Cursor.run] at read
  split at read
  · rename_i a stop decoded
    cases read
    have deeper := decodeWithin_deeper (Nat.le_max_left (maxDepth + 1) (value.depth + 1)) _ _ _ decoded
    have whole := decode_held written (Nat.lt_of_lt_of_le (Nat.lt_succ_self _) (Nat.le_max_right (maxDepth + 1) _)) held
    rw [whole] at deeper
    cases deeper
    rfl
  · cases read

theorem codec_fails {reader : Reader CodecError α} : Fails (fun e => ¬ e.FromPeer) (codec reader) := by
  intro start e stop failed
  unfold codec Cursor.widen at failed
  split at failed
  · cases failed
  · cases failed
    exact id

theorem many_fails {P : ε → Prop} {item : Reader ε α} (one : Fails P item) (count : Nat) (read : List α) :
    Fails P (Cursor.many item count read) := by
  induction count generalizing read with
  | zero => rintro start e stop ⟨⟩
  | succ count ih =>
    intro start e stop failed
    simp only [Cursor.many] at failed
    cases taken : item start with
    | error other after =>
      simp only [taken] at failed
      cases failed
      exact one start _ _ taken
    | ok a after =>
      simp only [taken] at failed
      exact ih _ _ _ _ failed

theorem decodeWithin_fails (data : ByteArray) (levels : Nat) : Fails (fun e => ¬ e.FromPeer) (decodeWithin data levels) := by
  induction levels with
  | zero => exact .throw id
  | succ levels ih =>
    simp only [decodeWithin]
    refine codec_fails.bind fun tag => ?_
    split
    · exact .pure _
    · exact codec_fails.bind fun _ => codec_fails.bind fun _ => .pure _
    · refine codec_fails.bind fun count => ?_
      split
      · exact .thrown id
      · refine codec_fails.bind fun red => codec_fails.bind fun green => codec_fails.bind fun blue => ?_
        split
        · rw [map_eq_pure_bind]
          exact (codec_fails.bind fun _ => .pure _).bind fun _ => .pure _
        · exact .pure _
    · exact codec_fails.bind fun _ => codec_fails.bind fun _ => codec_fails.bind fun _ => .pure _
    · exact codec_fails.bind fun _ => .pure _
    · refine codec_fails.bind fun count => .bind (fun _ _ _ ran => by cases ran) fun offset => ?_
      split
      · exact .thrown id
      · exact (many_fails ih _ _).bind fun _ => .pure _
    · exact codec_fails.bind fun _ => .pure _
    · exact codec_fails.bind fun _ => .pure _
    · exact .throw id

theorem many_gives {P : α → Prop} {item : Reader ε α} (one : Gives P item) (count : Nat)
    {read : List α} (before : ∀ a ∈ read, P a) : Gives (fun all => ∀ a ∈ all, P a) (Cursor.many item count read) := by
  induction count generalizing read with
  | zero =>
    rintro start all stop ⟨⟩
    exact fun a among => before a (List.mem_reverse.mp among)
  | succ count ih =>
    intro start all stop ran
    simp only [Cursor.many] at ran
    cases taken : item start with
    | error e after => simp [taken] at ran
    | ok a after =>
      simp only [taken] at ran
      exact ih (List.forall_mem_cons.mpr ⟨one _ _ _ taken, before⟩) _ _ _ ran

theorem decodeWithin_gives (data : ByteArray) (levels : Nat) :
    Gives (fun value => value.depth < levels) (decodeWithin data levels) := by
  induction levels with
  | zero => exact .throw _
  | succ levels ih =>
    simp only [decodeWithin]
    refine .after fun tag => ?_
    split
    · exact .pure (Nat.succ_pos _)
    · exact .after fun _ => .after fun _ => .pure (Nat.succ_pos _)
    · refine .after fun count => ?_
      split
      · exact .thrown _ _
      · refine .after fun red => .after fun green => .after fun blue => ?_
        split <;> exact .after fun alpha => .pure (Nat.succ_pos _)
    · exact .after fun _ => .after fun _ => .after fun _ => .pure (Nat.succ_pos _)
    · exact .after fun _ => .pure (Nat.succ_pos _)
    · refine .after fun count => .after fun offset => ?_
      split
      · exact .thrown _ _
      · refine (many_gives ih _ (List.forall_mem_nil _)).bind fun items each => .pure ?_
        exact Nat.lt_succ_of_le (depthAll_le fun item among => each item among)
    · exact .after fun _ => .pure (Nat.succ_pos _)
    · exact .after fun _ => .pure (Nat.succ_pos _)
    · exact .throw _

theorem ofBytes_iff (written : value.encode = .ok encoded) :
    ofBytes encoded = .ok value ↔ value.depth ≤ maxDepth := by
  refine ⟨fun read => ?_, fun shallow => ofBytes_held written shallow (Holds.whole encoded)⟩
  rw [ofBytes, Cursor.run] at read
  split at read
  · rename_i a stop decoded
    cases read
    exact Nat.le_of_lt_succ (decodeWithin_gives _ _ _ _ _ decoded)
  · cases read

end deeper

-- A value that was written is read from anywhere, and the reader stops behind its bytes. With
-- a single byte less nothing is read: what the shorter bytes gave, the full ones would give
-- with the same stop, and their stop is their end.
theorem wire_round_trip {value : WireValue} (fits : value.Fits) (shallow : value.depth ≤ maxDepth) :
    ∃ encoded, value.encode = .ok encoded ∧
      (∀ before more, decode (before ++ encoded ++ more) before.size =
        .ok value (before.size + encoded.size)) ∧
      ∀ before length, length < encoded.size → ∃ e stop,
        decode (before ++ encoded.extract 0 length) before.size = .error e stop := by
  obtain ⟨encoded, written⟩ := encode_done fits
  have whole : ∀ before more, decode (before ++ encoded ++ more) before.size =
      .ok value (before.size + encoded.size) := by
    intro before more
    exact decode_held written (Nat.lt_succ_of_le shallow) (Holds.after before encoded more)
  refine ⟨encoded, written, whole, ?_⟩
  intro before length short
  cases result : decode (before ++ encoded.extract 0 length) before.size with
  | error e stop => exact ⟨e, stop, rfl⟩
  | ok found stop =>
    exfalso
    have confined := decodeWithin_confined (maxDepth + 1)
    have cut : (before ++ encoded.extract 0 length).size = before.size + length := by
      rw [ByteArray.size_append, ByteArray.size_extract]
      omega
    have early := confined.inside _ before.size found stop (by omega) result
    have joined : before ++ encoded.extract 0 length ++ encoded.extract length encoded.size =
        before ++ encoded ++ .empty := by
      rw [ByteArray.append_assoc, ByteArray.extract_append_extract, ByteArray.append_empty]
      simp [Nat.le_of_lt short]
    have again := confined.stable _ (encoded.extract length encoded.size) before.size found stop result
    have full := whole before .empty
    rw [joined] at again
    rw [decode, again] at full
    cases full
    omega

-- As many expressions around one another as a reader follows, and in the innermost one a color
-- whose components are no numbers.
theorem wire_round_trip_deepest :
    let around := fun inner => WireValue.expression [.keyword "a", inner]
    let value := around^[64] (.color ⟨.quietNaN, .infinity true, .negZero⟩ (some ⟨0xFFF8000000000001⟩))
    value.Fits ∧ value.depth = maxDepth ∧ ∃ encoded, value.encode = .ok encoded ∧
      (∀ before more, decode (before ++ encoded ++ more) before.size =
        .ok value (before.size + encoded.size)) ∧
      ∀ before length, length < encoded.size → ∃ e stop,
        decode (before ++ encoded.extract 0 length) before.size = .error e stop := by
  intro around value
  have fits : value.Fits := by
    refine Function.Iterate.rec Fits ?_ ?_ 64
    · trivial
    · intro inner fits
      exact ⟨show 2 < 0x100000000 by decide, show 1 < 0x100000000 by decide, fits, trivial⟩
  have deep : value.depth = maxDepth := by decide +kernel
  exact ⟨fits, deep, wire_round_trip fits (Nat.le_of_eq deep)⟩

end WireValue
end PluginBridge
