import PluginBridge.Proofs.Bytes.Readers
import PluginBridge.Wire.Preload
import PluginBridge.Wire.Value
namespace PluginBridge

namespace WireValue
variable {data encoded : ByteArray} {offset : Nat}

mutual

def depth : WireValue → Nat
  | .expression items => depthAll items
  | _ => 0

def depthAll : List WireValue → Nat
  | [] => 0
  | item :: rest => max (item.depth + 1) (depthAll rest)

end

theorem depthAll_le {items : List WireValue} {limit : Nat} (each : ∀ item ∈ items, item.depth + 1 ≤ limit) :
    depthAll items ≤ limit := by
  induction items with
  | nil => exact Nat.zero_le _
  | cons item rest ih =>
    exact Nat.max_le.mpr ⟨each item List.mem_cons_self, ih fun other among =>
      each other (List.mem_cons_of_mem _ among)⟩

theorem depth_item {items : List WireValue} {item : WireValue} (among : item ∈ items) :
    item.depth + 1 ≤ depthAll items := by
  induction items with
  | nil => cases among
  | cons first rest ih =>
    rcases List.mem_cons.mp among with rfl | among
    · exact Nat.le_max_left _ _
    · exact Nat.le_trans (ih among) (Nat.le_max_right _ _)

theorem reads_u8 (n : UInt8) : Cursor.Reads data (codec (Cursor.u8 data)) n (Bytes.u8 n) := (Cursor.Reads.u8 n).widen _

theorem reads_u32 (n : UInt32) : Cursor.Reads data (codec (Cursor.u32 data)) n (Bytes.u32 n) := (Cursor.Reads.u32 n).widen _

theorem reads_f64 (x : Binary64) : Cursor.Reads data (codec (Cursor.f64 data)) x (Bytes.f64 x) := (Cursor.Reads.f64 x).widen _

theorem reads_text {s place : String} (stored : Bytes.text s = .ok encoded) :
    Cursor.Reads data (codec (Cursor.text data place)) s encoded := (Cursor.Reads.text stored).widen _

theorem encode_size {value : WireValue} (written : value.encode = .ok encoded) : 1 ≤ encoded.size := by
  cases value with
  | null =>
    cases written
    simp
  | dimension size unit =>
    obtain ⟨text, _, written⟩ := except_parts written
    cases written
    simp only [ByteArray.size_append, Bytes.size_u8]
    omega
  | color rgb alpha =>
    cases written
    simp only [Bytes.concat_cons, ByteArray.size_append, Bytes.size_u8]
    omega
  | quoted quote escaped text =>
    obtain ⟨text, _, written⟩ := except_parts written
    cases written
    simp only [ByteArray.size_append, Bytes.size_u8]
    omega
  | keyword text =>
    obtain ⟨text, _, written⟩ := except_parts written
    cases written
    simp only [ByteArray.size_append, Bytes.size_u8]
    omega
  | expression items =>
    obtain ⟨count, _, written⟩ := except_parts written
    obtain ⟨inner, _, written⟩ := except_parts written
    cases written
    simp only [ByteArray.size_append, Bytes.size_u8]
    omega
  | number size =>
    cases written
    simp only [ByteArray.size_append, Bytes.size_u8]
    omega
  | boolean value =>
    cases written
    simp only [ByteArray.size_append, Bytes.size_u8]
    omega

theorem encodeAll_parts : ∀ {items : List WireValue} {encoded : ByteArray},
    encodeAll items = .ok encoded → ∃ parts, encoded = Bytes.concat parts ∧
      List.Forall₂ (fun item part => item.encode = .ok part) items parts := by
  intro items
  induction items with
  | nil =>
    intro encoded written
    rw [encodeAll] at written
    cases written
    exact ⟨[], rfl, .nil⟩
  | cons item rest ih =>
    intro encoded written
    rw [encodeAll] at written
    obtain ⟨first, one, written⟩ := except_parts written
    obtain ⟨others, more, written⟩ := except_parts written
    cases written
    obtain ⟨parts, rfl, each⟩ := ih more
    exact ⟨first :: parts, by rw [Bytes.concat_cons], .cons one each⟩

theorem parts_size {items : List WireValue} {parts : List ByteArray}
    (each : List.Forall₂ (fun item part => item.encode = .ok part) items parts) :
    items.length ≤ (Bytes.concat parts).size := by
  induction each with
  | nil => simp
  | cons first _ ih =>
    have least := encode_size first
    rw [Bytes.concat_cons, ByteArray.size_append, List.length_cons]
    omega

mutual

theorem decode_held : ∀ {value : WireValue} {levels : Nat} {encoded : ByteArray},
    value.encode = .ok encoded → value.depth < levels → Cursor.Reads data (decodeWithin data levels) value encoded
  | _, 0, _, _, deep => absurd deep (Nat.not_lt_zero _)
  | .null, levels + 1, _, written, _ => by
    cases written
    rw [decodeWithin, ← ByteArray.append_empty (b := Bytes.u8 0)]
    exact (reads_u8 0).bind (.pure null)
  | .dimension size unit, levels + 1, _, written, _ => by
    obtain ⟨text, stored, written⟩ := except_parts written
    cases written
    rw [decodeWithin, ByteArray.append_assoc]
    exact (reads_u8 1).bind ((reads_f64 size).bind ((reads_text stored).map (dimension size)))
  | .color rgb none, levels + 1, _, written, _ => by
    cases written
    rw [decodeWithin]
    simp only [Rgb.toList, Option.toList_none, List.append_nil, List.map_cons, List.map_nil,
      Bytes.concat_cons, Bytes.concat_nil]
    exact (reads_u8 2).bind ((reads_u8 3).bind ((reads_f64 rgb.red).bind ((reads_f64 rgb.green).bind
      ((reads_f64 rgb.blue).bind (.pure _)))))
  | .color rgb (some alpha), levels + 1, _, written, _ => by
    cases written
    rw [decodeWithin]
    simp only [Rgb.toList, Option.toList_some, List.cons_append, List.nil_append, List.map_cons,
      List.map_nil, Bytes.concat_cons, Bytes.concat_nil]
    exact (reads_u8 2).bind ((reads_u8 4).bind ((reads_f64 rgb.red).bind ((reads_f64 rgb.green).bind
      ((reads_f64 rgb.blue).bind (((reads_f64 alpha).map some).bind (.pure _))))))
  | .quoted quote escaped text, levels + 1, _, written, _ => by
    obtain ⟨body, stored, written⟩ := except_parts written
    cases written
    obtain ⟨n, flag, rfl⟩ := @Cursor.Reads.flag data escaped
    rw [decodeWithin, ByteArray.append_assoc, ByteArray.append_assoc]
    exact (reads_u8 3).bind ((reads_u8 quote).bind ((flag.widen _).bind
      ((reads_text stored).map (quoted quote (n != 0)))))
  | .keyword text, levels + 1, _, written, _ => by
    obtain ⟨body, stored, written⟩ := except_parts written
    cases written
    rw [decodeWithin]
    exact (reads_u8 4).bind ((reads_text stored).map keyword)
  | .expression items, levels + 1, _, written, deep => by
    obtain ⟨count, counted, written⟩ := except_parts written
    obtain ⟨inner, items_written, written⟩ := except_parts written
    cases written
    obtain ⟨parts, rfl, each⟩ := encodeAll_parts items_written
    have read := Cursor.Reads.many (items_held each (Nat.le_of_lt_succ deep)) []
    rw [← word32_number counted] at read
    -- Each item takes a byte at least, so the count passes the check against what is left.
    have enough : count.toNat ≤ (Bytes.concat parts).size := by
      rw [word32_number counted]
      exact parts_size each
    rw [decodeWithin, ByteArray.append_assoc]
    exact (reads_u8 5).bind ((reads_u32 count).bind (.enough enough (read.map expression) _))
  | .number size, levels + 1, _, written, _ => by
    cases written
    rw [decodeWithin]
    exact (reads_u8 6).bind ((reads_f64 size).map number)
  | .boolean value, levels + 1, _, written, _ => by
    cases written
    obtain ⟨n, flag, rfl⟩ := @Cursor.Reads.flag data value
    rw [decodeWithin]
    exact (reads_u8 7).bind ((flag.widen _).map fun n => boolean (n != 0))

theorem items_held : ∀ {items : List WireValue} {parts : List ByteArray} {levels : Nat},
    List.Forall₂ (fun item part => item.encode = .ok part) items parts → depthAll items ≤ levels →
      List.Forall₂ (Cursor.Reads data (decodeWithin data levels)) items parts
  | [], [], _, _, _ => .nil
  | _ :: _, _ :: _, _, .cons first rest, deep =>
    .cons (decode_held first (Nat.le_trans (Nat.le_max_left _ _) deep))
      (items_held rest (Nat.le_trans (Nat.le_max_right _ _) deep))

end

theorem ofBytes_held {value : WireValue} (written : value.encode = .ok encoded)
    (shallow : value.depth ≤ maxDepth) (held : Holds data 0 encoded) : ofBytes data = .ok value :=
  (decode_held written (Nat.lt_succ_of_le shallow)).run held

end WireValue

variable {data encoded : ByteArray} {offset : Nat} {vars : List PreloadedVariable}

theorem PreloadedVariable.decode_held {var : PreloadedVariable} (written : var.encode = .ok encoded)
    (shallow : var.value.depth ≤ WireValue.maxDepth) : Cursor.Reads data (decode data) var encoded := by
  obtain ⟨name, stored, written⟩ := except_parts written
  obtain ⟨value, valued, written⟩ := except_parts written
  cases written
  obtain ⟨n, flag, same⟩ := @Cursor.Reads.flag data var.important
  have last : Cursor.Reads data (WireValue.decode data) var.value value :=
    WireValue.decode_held valued (Nat.lt_succ_of_le shallow)
  rw [decode, ByteArray.append_assoc]
  refine (WireValue.reads_text stored).bind ((flag.widen _).bind ?_)
  rw [same]
  exact last.map (PreloadedVariable.mk var.name var.important)

theorem PreloadedVariable.encode_size {var : PreloadedVariable} (written : var.encode = .ok encoded) :
    1 ≤ encoded.size := by
  obtain ⟨name, _, written⟩ := except_parts written
  obtain ⟨value, valued, written⟩ := except_parts written
  cases written
  have least := WireValue.encode_size valued
  simp only [ByteArray.size_append]
  omega

namespace Preload

theorem entries_size {entries : List ByteArray}
    (each : List.Forall₂ (fun var part => PreloadedVariable.encode var = .ok part) vars entries) :
    vars.length ≤ (Bytes.concat entries).size := by
  induction each with
  | nil => simp
  | cons first _ ih =>
    have least := PreloadedVariable.encode_size first
    rw [Bytes.concat_cons, ByteArray.size_append, List.length_cons]
    omega

theorem readAll_reads (written : encode vars = .ok encoded)
    (shallow : ∀ var ∈ vars, var.value.depth ≤ WireValue.maxDepth) : Cursor.Reads data (readAll data) vars encoded := by
  obtain ⟨count, counted, written⟩ := except_parts written
  obtain ⟨entries, stored, written⟩ := except_parts written
  cases written
  have each := mapM_parts stored
  have exact := word32_number counted
  have parts : List.Forall₂ (Cursor.Reads data (PreloadedVariable.decode data)) vars entries := by
    refine List.forall₂_iff_get.mpr ⟨each.length_eq, fun i low high => ?_⟩
    exact PreloadedVariable.decode_held ((List.forall₂_iff_get.mp each).2 i low high)
      (shallow _ (List.get_mem _ _))
  rw [Bytes.concat_cons]
  refine (WireValue.reads_u32 count).bind fun offset held => ?_
  have least := entries_size each
  have within := held.within
  have enough : ¬ data.size < count.toNat := by omega
  simp only [if_neg enough]
  rw [exact]
  exact Cursor.Reads.many parts [] held

theorem decode_held (written : encode vars = .ok encoded)
    (shallow : ∀ var ∈ vars, var.value.depth ≤ WireValue.maxDepth) (held : Holds data 0 encoded) :
    decode data = .ok vars :=
  (readAll_reads written shallow).run held

end Preload
end PluginBridge
