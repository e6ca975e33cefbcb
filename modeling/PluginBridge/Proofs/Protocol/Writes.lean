import PluginBridge.Proofs.Outcome
import PluginBridge.Proofs.Protocol.Cells
import PluginBridge.Proofs.Wire.Values
import PluginBridge.Protocol.Host
import PluginBridge.Protocol.Peer
namespace PluginBridge
variable {R : Memory → Memory → Prop} {places : Nat → ByteArray → Prop} {region : RegionId}

def Permits (R : Memory → Memory → Prop) (region : RegionId) (places : Nat → ByteArray → Prop) : Prop :=
  ∀ offset bytes, places offset bytes → Along R (Memory.write region offset bytes)

-- What a host writes of a call and of its response: words behind the flag that calls the peer, a zero
-- for that flag, and the arguments.
inductive HostWrites : Nat → ByteArray → Prop where
  | lower : HostWrites 0 (Bytes.u32 0)
  | word {offset : Nat} (value : UInt32) : 4 ≤ offset → offset + 4 ≤ Layout.standard.controlSize →
      HostWrites offset (Bytes.u32 value)
  | args {offset : Nat} {bytes : ByteArray} : Layout.standard.argsOffset ≤ offset →
      offset + bytes.size ≤ Layout.standard.argsOffset + Layout.standard.argsSize → HostWrites offset bytes

-- Places that take the words of a layout: any word, but of the one that calls the peer a zero only.
structure WordPlaces (layout : Layout) (places : Nat → ByteArray → Prop) : Prop where
  lower : places (ControlCell.requestReady.offset layout) (Bytes.u32 0)
  word : ∀ (cell : ControlCell) (value : UInt32), cell.Present layout.fields → cell ≠ .requestReady →
    places (cell.offset layout) (Bytes.u32 value)

structure HostPlaces (layout : Layout) (places : Nat → ByteArray → Prop) : Prop extends WordPlaces layout places where
  args : ∀ offset (bytes : ByteArray), layout.argsOffset ≤ offset →
    offset + bytes.size ≤ layout.argsOffset + layout.argsSize → places offset bytes

theorem ControlCell.behind_flag {cell : ControlCell} (other : cell ≠ .requestReady) : 4 ≤ cell.offset .standard := by
  have start : cell.offset .standard = cell.field .standard := Nat.zero_add _
  rw [start]
  cases cell with
  | requestReady => exact absurd rfl other
  | slot index =>
    change 4 ≤ 16 + index * 4
    omega
  | _ => exact of_decide_eq_true rfl

theorem HostWrites.laid : HostPlaces .standard HostWrites where
  lower := .lower
  word cell value present other := by
    have start : cell.offset .standard = cell.field .standard := Nat.zero_add _
    exact .word value (ControlCell.behind_flag other) (start ▸ Layout.standard_separate.inside cell present)
  args _ _ := .args

namespace ProtocolRegion
variable {block : ProtocolRegion} {field : Nat} {value : UInt32}

theorem codec_gives {α : Type} (result : Except CodecError α) : Gives (fun a => result = .ok a) (codec result) := by
  cases result with
  | ok a => exact .pure rfl
  | error e => rintro s a t ⟨⟩

theorem outcome_along {α : Type} {action : ProtocolAccess α} (along : Along R action) : Along R (outcome action) := by
  intro memory
  have acted := along memory
  cases ran : action memory with
  | ok a later | error e later =>
    rw [ran] at acted
    simp only [outcome, ran]
    exact acted

theorem outcome_gives {α : Type} {P : α → Prop} {action : ProtocolAccess α} (gives : Gives P action) :
    Gives (fun result => ∀ a, result = .ok a → P a) (outcome action) := by
  intro memory result later ran a rfl
  cases acted : action memory with
  | ok b next =>
    simp only [outcome, acted] at ran
    cases ran
    exact gives memory a later acted
  | error e next =>
    simp only [outcome, acted] at ran
    cases ran

theorem write_along (permits : Permits R block.region places) {offset : Nat} {bytes : ByteArray}
    (place : places offset bytes) : Along R (access (Memory.write block.region offset bytes)) :=
  Along.adapt _ (permits offset bytes place)

theorem set_along (permits : Permits R block.region places)
    (place : places (block.layout.control field) (Bytes.u32 value)) : Along R (block.set field value) :=
  write_along permits place

theorem get_left (block : ProtocolRegion) (field : Nat) : Along Eq (block.get field) :=
  Along.adapt _ ((Memory.read_left _ _ _).bind fun _ => .pure _)

theorem syncControl_left (block : ProtocolRegion) : Along Eq block.syncControl :=
  Along.adapt _ (Memory.syncRange_left _ _ _)

theorem checkWithin_left (part : Section) (offset length start size : Nat) :
    Along Eq (checkWithin part offset length start size) := by
  unfold checkWithin
  split
  · exact .pure ()
  · exact .throw _

theorem view_left {α : Type} (block : ProtocolRegion) (offset length : Nat)
    (read : ByteArray → Except ProtocolError α) : Along Eq (block.view offset length read) := by
  refine (Along.adapt _ (Memory.read_left _ _ _)).bind fun bytes => ?_
  cases read bytes with
  | ok a => exact .pure a
  | error e => exact .throw e

variable [IsPreorder Memory R]

theorem codec_along {α : Type} (result : Except CodecError α) : Along R (codec result) := by
  cases result with
  | ok a => exact .pure a
  | error e => exact .throw _

theorem setAll_along (permits : Permits R block.region places) (fields : List Nat)
    (each : ∀ field ∈ fields, places (block.layout.control field) (Bytes.u32 value)) :
    Along R (block.setAll value fields) := by
  induction fields with
  | nil => exact .pure ()
  | cons field rest ih =>
    obtain ⟨place, others⟩ := List.forall_mem_cons.mp each
    exact (set_along permits place).bind fun _ => ih others

end ProtocolRegion

namespace ProtocolHost
open ProtocolRegion
variable [IsPreorder Memory R] {host : ProtocolHost}

section staging
variable (permits : Permits R host.block.region places) (laid : HostPlaces host.block.layout places)
include permits laid

theorem clearSlots_along (count index : Nat) (few : index + count ≤ host.block.layout.fields.maxArgs) :
    Along R (clearSlots host.block count index) := by
  induction count generalizing index with
  | zero => exact .pure ()
  | succ count ih =>
    have slot := laid.word (.slot index) 0 (Nat.lt_of_lt_of_le (by omega) few) (by rintro ⟨⟩)
    rw [← Layout.argSlot_offset] at slot
    exact (write_along permits slot).bind fun _ => ih (index + 1) (by omega)

theorem prepareCall_along (id : UInt32) (count : Nat) : Along R (host.prepareCall id count) := by
  have word : ∀ (cell : ControlCell) {value}, cell.Present host.block.layout.fields → cell ≠ .requestReady →
      places (host.block.layout.control (cell.field host.block.layout.fields)) (Bytes.u32 value) :=
    fun cell {value} => laid.word cell value
  unfold prepareCall
  simp only
  split
  · exact .thrown _ _
  · refine (setAll_along permits _ ?_).bind fun _ => ?_
    · simp only [clearedFields, List.forall_mem_cons]
      exact ⟨laid.lower, word .responseReady trivial (by decide), word .errorFlag trivial (by decide),
        word .resultOffset trivial (by decide), word .resultSize trivial (by decide),
        fun _ among => absurd among List.not_mem_nil⟩
    refine (set_along permits (word .functionId trivial (by decide))).bind fun _ => (codec_along _).bind fun _ => ?_
    refine (set_along permits (word .argCount trivial (by decide))).bind fun _ => ?_
    exact (clearSlots_along permits laid _ 0 (by omega)).bind fun _ => .pure _

theorem writeArg_along (few : host.argCount ≤ host.block.layout.fields.maxArgs) (index : Nat) (value : WireValue) :
    Along R (host.writeArg index value) := by
  unfold writeArg
  simp only
  split
  · exact .thrown _ _
  · rename_i early
    refine (codec_along _).bindGiven (codec_gives value.encode) fun bytes encoded => ?_
    have least := WireValue.encode_size encoded
    split
    · exact .thrown _ _
    · rename_i room
      refine (write_along permits (laid.args _ _ (Nat.le_add_right _ _) (by omega))).bind fun _ =>
        (codec_along _).bind fun place => ?_
      have slot := laid.word (.slot index) place (Nat.lt_of_lt_of_le (by omega) few) (by rintro ⟨⟩)
      rw [← Layout.argSlot_offset] at slot
      exact (write_along permits slot).bind fun _ => .pure _

end staging

structure Stays (before after : ProtocolHost) : Prop where
  block : after.block = before.block
  functions : after.functions = before.functions

theorem Stays.trans {middle later : ProtocolHost} (first : host.Stays middle) (second : middle.Stays later) :
    host.Stays later :=
  ⟨second.block.trans first.block, second.functions.trans first.functions⟩

-- It takes as many arguments as before, and its cursor stands behind the bytes of one more.
structure Continues (value : WireValue) (before after : ProtocolHost) : Prop extends before.Stays after where
  count : after.argCount = before.argCount
  wrote : ∃ bytes, value.encode = .ok bytes ∧ after.argCursor = before.argCursor + bytes.size ∧
    before.argCursor + bytes.size ≤ before.block.layout.argsSize

theorem writeArg_continues (index : Nat) (value : WireValue) : Gives (host.Continues value) (host.writeArg index value) := by
  unfold writeArg
  simp only
  split
  · exact .thrown _ _
  · refine (codec_gives value.encode).bind fun bytes encoded => ?_
    have least := WireValue.encode_size encoded
    split
    · exact .thrown _ _
    · rename_i room
      exact .after fun _ => .after fun _ => .after fun _ => .pure ⟨⟨rfl, rfl⟩, rfl, bytes, encoded, rfl, by omega⟩

theorem writeArgs_stays (index : Nat) (values : List WireValue) :
    Gives (fun result => host.Stays result.1) (host.writeArgs index values) := by
  induction values generalizing host index with
  | nil => exact .pure ⟨rfl, rfl⟩
  | cons value rest ih =>
    refine (outcome_gives (writeArg_continues index value)).bind fun result on => ?_
    cases result with
    | ok next => exact fun s a t ran => (on next rfl).toStays.trans (@ih next (index + 1) s a t ran)
    | error e => exact .pure ⟨rfl, rfl⟩

theorem writeArgs_fits (index : Nat) (values : List WireValue) (begun : host.argCursor ≤ host.block.layout.argsSize) :
    Gives (fun result => result.2 = .ok () → ∃ bytes, WireValue.encodeAll values = .ok bytes ∧
      host.argCursor + bytes.size ≤ host.block.layout.argsSize) (host.writeArgs index values) := by
  induction values generalizing host index with
  | nil => exact .pure fun _ => ⟨_, rfl, begun⟩
  | cons value rest ih =>
    refine (outcome_gives (writeArg_continues index value)).bind fun result on => ?_
    cases result with
    | error e => exact .pure fun other => by cases other
    | ok next =>
      obtain ⟨⟨block, -⟩, -, bytes, encoded, cursor, room⟩ := on next rfl
      intro memory result later ran done
      obtain ⟨others, more, fits⟩ := @ih next (index + 1) (block ▸ cursor ▸ room) memory result later ran done
      rw [cursor, block, Nat.add_assoc] at fits
      refine ⟨bytes ++ others, ?_, by rwa [ByteArray.size_append]⟩
      rw [WireValue.encodeAll, except_done encoded, except_done more]
      rfl

theorem writeArgs_along (permits : Permits R host.block.region places) (laid : HostPlaces host.block.layout places)
    (few : host.argCount ≤ host.block.layout.fields.maxArgs) (index : Nat) (values : List WireValue) :
    Along R (host.writeArgs index values) := by
  induction values generalizing host index with
  | nil => exact .pure _
  | cons value rest ih =>
    refine (outcome_along (writeArg_along permits laid few index value)).bindGiven
      (outcome_gives (writeArg_continues index value)) fun result on => ?_
    cases result with
    | ok next =>
      obtain ⟨⟨block, -⟩, count, -⟩ := on next rfl
      exact ih (block ▸ permits) (block ▸ laid) (by rw [block, count]; exact few) (index + 1)
    | error e => exact .pure _

theorem prepareCall_gives (id : UInt32) (count : Nat) :
    Gives (fun next => host.Stays next ∧ next.argCount = count ∧ next.argCursor = 0 ∧
      count ≤ host.block.layout.fields.maxArgs) (host.prepareCall id count) := by
  unfold prepareCall
  simp only
  split
  · exact .thrown _ _
  · rename_i few
    exact .after fun _ => .after fun _ => .after fun _ => .after fun _ => .after fun _ =>
      .pure ⟨⟨rfl, rfl⟩, rfl, rfl, Nat.not_lt.mp few⟩

theorem stageCall_stays (id : UInt32) (args : List WireValue) :
    Gives (fun result => host.Stays result.1) (host.stageCall id args) := by
  refine (outcome_gives (prepareCall_gives id args.length)).bind fun result given => ?_
  cases result with
  | ok next => exact fun s a t ran => (given next rfl).1.trans (@writeArgs_stays next 0 args s a t ran)
  | error e => exact .pure ⟨rfl, rfl⟩

theorem stageCall_fits (id : UInt32) (args : List WireValue) :
    Gives (fun result => result.2 = .ok () → args.length ≤ host.block.layout.fields.maxArgs ∧
      ∃ bytes, WireValue.encodeAll args = .ok bytes ∧ bytes.size ≤ host.block.layout.argsSize)
      (host.stageCall id args) := by
  refine (outcome_gives (prepareCall_gives id args.length)).bind fun result given => ?_
  cases result with
  | error e => exact .pure fun other => by cases other
  | ok next =>
    obtain ⟨⟨block, -⟩, -, cursor, few⟩ := given next rfl
    intro memory result later ran done
    obtain ⟨bytes, encoded, fits⟩ := @writeArgs_fits next 0 args (cursor ▸ Nat.zero_le _) memory result later ran done
    rw [cursor, block, Nat.zero_add] at fits
    exact ⟨few, bytes, encoded, fits⟩

theorem readResult_left (host : ProtocolHost) : Along Eq host.readResult := by
  refine (host.block.get_left _).bind fun failed => ?_
  split
  · refine (host.block.get_left _).bind fun offset => (host.block.get_left _).bind fun size => ?_
    refine (checkWithin_left _ _ _ _ _).bind fun _ => ?_
    exact (host.block.view_left _ _ _).bind fun _ => .throw _
  · refine (host.block.get_left _).bind fun offset => (host.block.get_left _).bind fun size => ?_
    exact (checkWithin_left _ _ _ _ _).bind fun _ => host.block.view_left _ _ _

theorem waitForResponse_left (host : ProtocolHost) (timeout : Option Duration) :
    Along Eq (host.waitForResponse timeout) := by
  refine (host.block.syncControl_left).bind fun _ => (host.block.get_left _).bind fun ready => ?_
  split
  · exact .throw _
  · exact .pure ()

section calls
variable (permits : Permits R host.block.region places) (laid : HostPlaces host.block.layout places)
include permits laid

theorem stageCall_placed (id : UInt32) (args : List WireValue) : Along R (host.stageCall id args) := by
  refine (outcome_along (prepareCall_along permits laid id args.length)).bindGiven
    (outcome_gives (prepareCall_gives id args.length)) fun result given => ?_
  cases result with
  | ok next =>
    obtain ⟨⟨block, -⟩, count, -, few⟩ := given next rfl
    exact writeArgs_along (block ▸ permits) (block ▸ laid) (by rw [block, count]; exact few) 0 args
  | error e => exact .pure _

theorem clearResponse_along : Along R host.clearResponse := by
  refine (setAll_along permits _ ?_).bind fun _ => .unchanged host.block.syncControl_left
  simp only [List.forall_mem_cons]
  exact ⟨laid.lower, laid.word .responseReady 0 trivial (by decide), fun _ among => absurd among List.not_mem_nil⟩

theorem takeResponse_placed : Along R host.takeResponse := by
  have read : Along Eq (do host.waitForResponse none; host.readResult) :=
    (host.waitForResponse_left none).bind fun _ => host.readResult_left
  refine (outcome_along (.unchanged read)).bind fun result =>
    (outcome_along (clearResponse_along permits laid)).bind fun _ => ?_
  cases result with
  | ok a => exact .pure a
  | error e => exact .throw e

theorem requestShutdown_placed : Along R host.requestShutdown :=
  (set_along permits (laid.word .shutdown 1 trivial (by decide))).bind fun _ =>
    .unchanged host.block.syncControl_left

end calls

theorem signalRequest_placed (raise : Along R
      (Memory.write host.block.region (ControlCell.requestReady.offset host.block.layout) (Bytes.u32 1))) :
    Along R host.signalRequest := by
  have rung : Along R (do host.block.set host.block.layout.fields.requestReady 1; host.block.syncControl) :=
    (Along.adapt _ raise).bind fun _ => .unchanged host.block.syncControl_left
  unfold signalRequest
  simp only
  split
  · exact (Along.unchanged (Along.adapt _ (Memory.syncRange_left _ _ _))).bind fun _ => rung
  · exact rung

theorem preload_placed (vars : List PreloadedVariable)
    (fill : ∀ bytes, Preload.encode vars = .ok bytes → bytes.size ≤ host.block.layout.preloadSize →
      Along R (Memory.write host.block.region host.block.layout.preloadOffset bytes)) :
    Along R (host.preload vars) := by
  unfold preload
  refine (codec_along _).bindGiven (codec_gives (Preload.encode vars)) fun bytes encoded => ?_
  simp only
  split
  · exact .thrown _ _
  · rename_i room
    exact (Along.adapt _ (fill bytes encoded (Nat.not_lt.mp room))).bind fun _ =>
      .unchanged (Along.adapt _ (Memory.syncRange_left _ _ _))

theorem laid_standard (standard : host.block.layout = .standard) : HostPlaces host.block.layout HostWrites :=
  standard ▸ HostWrites.laid

section standard
variable (permits : Permits R host.block.region HostWrites) (standard : host.block.layout = .standard)
include permits standard

theorem stageCall_along (id : UInt32) (args : List WireValue) : Along R (host.stageCall id args) :=
  stageCall_placed permits (laid_standard standard) id args

theorem takeResponse_along : Along R host.takeResponse := takeResponse_placed permits (laid_standard standard)

theorem requestShutdown_along : Along R host.requestShutdown :=
  requestShutdown_placed permits (laid_standard standard)

end standard

theorem signalRequest_along (standard : host.block.layout = .standard)
    (raise : Along R (Memory.write host.block.region 0 (Bytes.u32 1))) : Along R host.signalRequest :=
  signalRequest_placed (standard ▸ raise)

theorem preload_along (standard : host.block.layout = .standard) (vars : List PreloadedVariable)
    (fill : ∀ bytes, Preload.encode vars = .ok bytes → bytes.size ≤ Layout.standard.preloadSize →
      Along R (Memory.write host.block.region Layout.standard.preloadOffset bytes)) :
    Along R (host.preload vars) := preload_placed vars (standard ▸ fill)

end ProtocolHost
end PluginBridge
