import PluginBridge.Proofs.Protocol.Docket
namespace PluginBridge

theorem getElem?_concat_kept {α : Type} {items : List α} {index : Nat} {item : α} (last : α)
    (found : items[index]? = some item) : (items ++ [last])[index]? = some item := by
  rw [List.getElem?_append_left (List.getElem?_eq_some_iff.mp found).1, found]

theorem getElem?_concat_cases {α : Type} {items : List α} {index : Nat} {item last : α}
    (found : (items ++ [last])[index]? = some item) :
    items[index]? = some item ∨ index = items.length ∧ item = last := by
  by_cases inside : index < items.length
  · rw [List.getElem?_append_left inside] at found
    exact .inl found
  · rw [List.getElem?_append_right (Nat.not_lt.mp inside)] at found
    obtain ⟨place, same⟩ := List.getElem?_eq_some_iff.mp found
    have first : index - items.length = 0 := Nat.lt_one_iff.mp place
    refine .inr ⟨by omega, ?_⟩
    simpa [first] using same.symm

section words
variable {data after : ByteArray} {touched : Nat → Prop}

theorem Holds.word {offset : Nat} {one other : UInt32} (first : Holds data offset (Bytes.u32 one))
    (second : Holds data offset (Bytes.u32 other)) : one = other := by
  have same := first.exact.symm
  rw [Bytes.size_u32, ← Bytes.size_u32 other, second.exact] at same
  have number := congrArg Bytes.number same
  rw [Bytes.number_u32, Bytes.number_u32] at number
  exact UInt32.toNat_inj.mp number

theorem not_rung (room : 4 ≤ data.size) : ¬ Rung data ↔
    ∃ value, Holds data (ControlCell.requestReady.offset .standard) (Bytes.u32 value) ∧ value ≠ 1 := by
  constructor
  · intro low
    obtain ⟨value, held⟩ := @word_held data 0 (by omega)
    refine ⟨value, held, ?_⟩
    rintro rfl
    exact low held
  · rintro ⟨value, held, other⟩ rung
    exact other (held.word rung)

end words

theorem ProtocolPeer.pollRequest_low {taker : ProtocolPeer} {memory : Memory} {other : RegionId} {data : ByteArray}
    (standard : taker.block.layout = .standard) (serves : Layout.standard.Serves data.size)
    (shared : Shared memory taker.block.region other data) (low : ¬ Rung data) :
    taker.pollRequest memory = .ok none memory := by
  obtain ⟨value, held, down⟩ := (not_rung (Nat.le_trans (by decide) serves.room)).mp low
  rw [← standard] at held serves
  rw [pollRequest]
  simp only
  rw [bind_done (ProtocolRegion.syncControl_done serves shared), bind_done (ProtocolRegion.get_done shared held)]
  simp only [ne_eq, down, not_false_eq_true, if_true]
  rfl

namespace Docket
open ProtocolHost (CallStaged)
variable {guards : RegionId → Prop} {start number index : Nat} {docket next : Docket} {memory later : Memory}
  {id : RegionId} {data after : ByteArray} {taker : ProtocolPeer} {request : ProtocolRequest} {reply : Reply}
  {entry : Taken}

def From (number : Nat) (docket : Docket) (memory : Memory) (index : Nat) (entry : Taken) : Prop :=
  docket.taken[index]? = some entry ∧ memory.fileOf? entry.taker.block.region = some number

-- What is done has nothing to do with the requests that were taken from regions of the file.
structure Apart (number : Nat) (docket : Docket) (memory : Memory) (next : Docket) (later : Memory) : Prop where
  drifts : memory.Drifts later
  same : ∀ index entry, From number next later index entry ↔ From number docket memory index entry

namespace Sound

theorem shows (sound : Sound start docket memory) (drifts : memory.Drifts later) (among : taker ∈ docket.ends)
    (shows : later.fileOf? taker.block.region = some number) : memory.fileOf? taker.block.region = some number := by
  obtain ⟨-, region, found, -⟩ := sound.ends taker among
  have here : memory.fileOf? taker.block.region = some region.file := congrArg (Option.map Region.file) found
  rw [here, ← drifts.fileOf here, shows]

theorem apart (sound : Sound start docket memory) (drifts : memory.Drifts later) (number : Nat) :
    Apart number docket memory docket later := by
  refine ⟨drifts, fun index entry => ⟨fun ⟨found, shows⟩ => ⟨found, ?_⟩, fun ⟨found, shows⟩ =>
    ⟨found, drifts.fileOf shows⟩⟩⟩
  exact sound.shows drifts (sound.takers entry (List.mem_of_getElem? found)) shows

theorem poll_apart (sound : Sound start docket memory) (drifts : memory.Drifts later) (among : taker ∈ docket.ends)
    (elsewhere : memory.fileOf? taker.block.region ≠ some number)
    (outcome : Except ProtocolError (Option ProtocolRequest)) :
    Apart number docket memory (docket.poll taker outcome) later := by
  unfold Docket.poll
  split
  · refine ⟨drifts, fun index entry => ⟨fun ⟨found, shows⟩ => ?_, fun ⟨found, shows⟩ =>
      ⟨getElem?_concat_kept _ found, drifts.fileOf shows⟩⟩⟩
    rcases getElem?_concat_cases found with old | ⟨-, rfl⟩
    · exact ⟨old, sound.shows drifts (sound.takers _ (List.mem_of_getElem? old)) shows⟩
    · exact absurd (sound.shows drifts among shows) elsewhere
  · exact sound.apart drifts number

theorem answer_apart (sound : Sound start docket memory) (drifts : memory.Drifts later)
    (waits : docket.taken[index]? = some ⟨taker, request, none⟩)
    (elsewhere : memory.fileOf? taker.block.region ≠ some number) (reply : Reply) (outcome : Except ProtocolError Unit) :
    Apart number docket memory (docket.answer index reply outcome) later := by
  unfold Docket.answer
  split
  · refine ⟨drifts, fun place entry => ⟨fun ⟨found, shows⟩ => ?_, fun ⟨found, shows⟩ => ⟨?_, drifts.fileOf shows⟩⟩⟩
    · rw [List.getElem?_modify] at found
      obtain ⟨before, there, same⟩ := Option.map_eq_some_iff.mp found
      have among := sound.takers before (List.mem_of_getElem? there)
      split at same
      · rename_i here
        subst here
        cases same
        cases waits.symm.trans there
        exact absurd (sound.shows drifts among shows) elsewhere
      · cases same
        exact ⟨there, sound.shows drifts among shows⟩
    · have other : index ≠ place := by
        rintro rfl
        cases waits.symm.trans found
        exact elsewhere shows
      rw [List.getElem?_modify, found, Option.map_eq_map, Option.map_some, if_neg other]
  · exact sound.apart drifts number

end Sound

-- The region with that number's file serves as a mailbox: the host has it mapped, and every taker that
-- still maps the file sees all of it.
structure Mailbox (start number : Nat) (id : RegionId) (docket : Docket) (memory : Memory) (data : ByteArray) : Prop
    extends Sound start docket memory where
  views : Views memory id number data
  room : Layout.standard.totalSize ≤ data.size
  sizes : ∀ taker ∈ docket.ends, ∀ region, memory.region? taker.block.region = some region → region.file = number →
    region.size = data.size

namespace Mailbox

theorem serves (box : Mailbox start number id docket memory data) : Layout.standard.Serves data.size :=
  ⟨Layout.standard_consistent, Layout.standard_separate, Layout.standard_addressable, box.room⟩

theorem there (box : Mailbox start number id docket memory data) : ∃ region, memory.region? id = some region :=
  box.views.region.imp fun _ found => found.1

theorem drifted (box : Mailbox start number id docket memory data) (drifts : memory.Drifts later)
    (retains : ∀ taker ∈ docket.ends, Memory.Retains taker.block.region memory later)
    (views : Views later id number after) (size : after.size = data.size) :
    Mailbox start number id docket later after := by
  refine ⟨box.toSound.drifts drifts retains, views, size ▸ box.room, fun taker among region found shows => ?_⟩
  obtain ⟨-, before, there, -⟩ := box.ends taker among
  obtain ⟨mapping, still⟩ := drifts.region _ before there
  cases still.symm.trans found
  exact size ▸ box.sizes taker among before there shows

theorem carried (box : Mailbox start number id docket memory data) (follows : memory.Follows later)
    (views : Views later id number after) (size : after.size = data.size) :
    Mailbox start number id docket later after :=
  box.drifted follows.drifts (fun taker _ => follows.retains taker.block.region) views size

theorem reached (box : Mailbox start number id docket memory data) (among : taker ∈ docket.ends)
    (shows : memory.fileOf? taker.block.region = some number) :
    Shared memory taker.block.region id data ∨ memory.Gone taker.block.region := by
  obtain ⟨-, region, found, usable, -⟩ := box.ends taker among
  obtain ⟨same, again, number_⟩ := Option.map_eq_some_iff.mp shows
  obtain rfl := Option.some.inj (found.symm.trans again)
  rcases usable with mapped | unmapped
  · have sized := box.sizes taker among region found number_
    exact .inl ⟨number, ⟨⟨region, found, mapped, number_, sized⟩, box.views.file⟩, box.views⟩
  · exact .inr ⟨region, found, unmapped⟩

theorem elsewhere (box : Mailbox start number id docket memory data) (among : taker ∈ docket.ends)
    (elsewhere : memory.fileOf? taker.block.region ≠ some number)
    (through : memory.Through taker.block.region (fun _ => True) later) :
    Mailbox start number id docket later data := by
  obtain ⟨-, region, found, -⟩ := box.ends taker among
  have other : number ≠ region.file := fun same => elsewhere (Option.map_eq_some_iff.mpr ⟨region, found, same.symm⟩)
  obtain ⟨⟨own, there, mapped⟩, file, stored, holds⟩ := box.views
  refine box.carried through.follows ⟨⟨own, ?_, mapped⟩, file, ?_, holds⟩ rfl
  · rw [through.region, there]
  · rw [through.others region found number other, stored]

theorem written {touched : Nat → Prop} (box : Mailbox start number id docket memory data)
    (through : memory.Through id touched later) :
    ∃ after, Mailbox start number id docket later after ∧ Differs touched data after := by
  obtain ⟨after, views, differs⟩ := through.views number data box.views
  exact ⟨after, box.carried through.follows views differs.size, differs⟩

theorem stands (box : Mailbox start number id docket memory data) (stands : memory.Stands (· = id) later) :
    Mailbox start number id docket later data :=
  box.carried stands.follows (stands.views rfl box.views) rfl

end Mailbox

-- What a move does to a mailbox: a word may change that tells that a peer is ready, the request may be taken
-- that is there, and a reply may be left.
inductive Effect (start number : Nat) (id : RegionId) (docket : Docket) (memory : Memory) (data : ByteArray) :
    Docket → Memory → Prop where
  | beside {next : Docket} {later : Memory} {after : ByteArray} : Apart number docket memory next later →
      Mailbox start number id next later after →
      Differs (Touches .standard fun cell => cell = .peerReady) data after →
      Effect start number id docket memory data next later
  | poll {taker : ProtocolPeer} : taker ∈ docket.ends → Shared memory taker.block.region id data →
      Effect start number id docket memory data (docket.poll taker (answered (taker.pollRequest memory)))
        (left (taker.pollRequest memory))
  | answer {index : Nat} {taker : ProtocolPeer} {request : ProtocolRequest} {reply : Reply} {later : Memory}
      {after : ByteArray} : From number docket memory index ⟨taker, request, none⟩ →
      reply.send taker memory = .ok () later → Views later id number after → after.size = data.size →
      reply.Left after → Effect start number id docket memory data (docket.answer index reply (.ok ())) later

namespace Mailbox
variable (box : Mailbox start number id docket memory data)
include box

theorem unchanged : Effect start number id docket memory data docket memory :=
  .beside (box.toSound.apart (Memory.Follows.refl memory).drifts number) box (.refl _ data)

theorem attach (path : String) : Effect start number id docket memory data
    (docket.attach (answered (ProtocolPeer.attach path .standard memory)))
    (left (ProtocolPeer.attach path .standard memory)) := by
  obtain ⟨keeps, attached⟩ := ProtocolPeer.attach_cases path memory
  have still := box.carried keeps.follows (keeps.views box.views) rfl
  have sound : Sound start _ _ := (@Move.attach (fun _ => True) docket memory path).sound box.toSound
  unfold Docket.attach at sound ⊢
  split at sound
  · rename_i taker made
    refine .beside ⟨keeps.follows.drifts, (box.toSound.apart keeps.follows.drifts number).same⟩
      ⟨sound, still.views, box.room, fun other among region found shows => ?_⟩ (.refl _ data)
    rcases List.mem_append.mp among with old | new
    · exact still.sizes other old region found shows
    · cases List.mem_singleton.mp new
      obtain ⟨-, own, file, there, -, sized, stored⟩ := attached _ made
      obtain rfl := Option.some.inj (there.symm.trans found)
      obtain ⟨same, again, holds⟩ := still.views.file
      rw [shows] at stored
      obtain rfl := Option.some.inj (stored.symm.trans again)
      rw [sized, holds]
  · exact .beside (box.toSound.apart keeps.follows.drifts number) still (.refl _ data)

theorem ready (among : taker ∈ docket.ends) :
    Effect start number id docket memory data docket (left (taker.markReady memory)) := by
  have standard := (box.ends taker among).1
  have through := ProtocolPeer.markReady_along (PeerWrites.through _) standard memory
  by_cases shows : memory.fileOf? taker.block.region = some number
  · rcases box.reached among shows with shared | gone
    · obtain ⟨later, after, marked⟩ := ProtocolPeer.markReady_done (standard ▸ box.serves) shared
      rw [marked.ran] at through ⊢
      rw [standard] at marked
      obtain ⟨other, -, views⟩ := marked.shared
      obtain rfl : other = number := Option.some.inj (views.fileOf.symm.trans (through.follows.drifts.fileOf box.views.fileOf))
      exact .beside (box.toSound.apart through.follows.drifts _) (box.carried through.follows views marked.differs.size)
        marked.differs
    · obtain ⟨e, failed⟩ := ProtocolPeer.markReady_gone gone
      rw [failed]
      exact box.unchanged
  · exact .beside (box.toSound.apart through.follows.drifts number) (box.elsewhere among shows through) (.refl _ data)

theorem poll (among : taker ∈ docket.ends) : Effect start number id docket memory data
    (docket.poll taker (answered (taker.pollRequest memory))) (left (taker.pollRequest memory)) := by
  have through := ProtocolPeer.pollRequest_along (PeerWrites.through _) (box.ends taker among).1 memory
  by_cases shows : memory.fileOf? taker.block.region = some number
  · rcases box.reached among shows with shared | gone
    · exact .poll among shared
    · obtain ⟨e, failed⟩ := ProtocolPeer.pollRequest_gone gone
      rw [failed]
      exact box.unchanged
  · have still := box.elsewhere among shows through
    have sound : Sound start _ _ := (@Move.poll (fun _ => True) docket memory taker among).sound box.toSound
    refine .beside (box.toSound.poll_apart through.follows.drifts among shows _)
      ⟨sound, still.views, still.room, fun other inside => still.sizes other ?_⟩ (.refl _ data)
    unfold Docket.poll at inside
    split at inside <;> exact inside

theorem answer (reply : Reply) (waits : docket.taken[index]? = some ⟨taker, request, none⟩) :
    Effect start number id docket memory data (docket.answer index reply (answered (reply.send taker memory)))
      (left (reply.send taker memory)) := by
  have among := box.takers _ (List.mem_of_getElem? waits)
  have standard := (box.ends taker among).1
  have through := ProtocolPeer.send_along (PeerWrites.through _) standard reply memory
  by_cases shows : memory.fileOf? taker.block.region = some number
  · rcases box.reached among shows with shared | gone
    · rcases Reply.send_cases box.serves standard shared reply with
        ⟨later, after, ran, shared, size, lies⟩ | ⟨e, -, failed⟩
      · rw [ran] at through ⊢
        obtain ⟨other, -, views⟩ := shared
        obtain rfl : other = number := Option.some.inj (views.fileOf.symm.trans (through.follows.drifts.fileOf box.views.fileOf))
        exact .answer ⟨waits, shows⟩ ran views size lies
      · rw [failed]
        exact box.unchanged
    · obtain ⟨e, failed⟩ := Reply.send_gone gone reply
      rw [failed]
      exact box.unchanged
  · have still := box.elsewhere among shows through
    have sound : Sound start _ _ :=
      (@Move.answer (fun _ => True) docket memory index taker request reply waits).sound box.toSound
    refine .beside (box.toSound.answer_apart through.follows.drifts waits shows reply _)
      ⟨sound, still.views, still.room, fun other inside => still.sizes other ?_⟩ (.refl _ data)
    unfold Docket.answer at inside
    split at inside <;> exact inside

theorem move (chosen : guards id) (move : Move guards (docket, memory) (next, later)) :
    Effect start number id docket memory data next later := by
  cases move with
  | attach path => exact box.attach path
  | ready among => exact box.ready among
  | poll among => exact box.poll among
  | answer reply waits => exact box.answer reply waits
  | other drifts lets retains =>
    obtain ⟨after, views, differs⟩ := lets.2 id chosen number data box.views
    exact .beside (box.toSound.apart drifts number) (box.drifted drifts retains views differs.size)
      (differs.widen fun _ none => none.elim)

end Mailbox
end Docket
end PluginBridge
