import PluginBridge.Proofs.Protocol.Mailbox
namespace PluginBridge
open ProtocolHost (CallStaged)

section kept
variable {data after bytes : ByteArray} {flag : UInt32} {place length : ControlCell} {start size : Nat} {layout : Layout}
  {reply : Reply}

theorem Answer.kept (serves : layout.Serves data.size) (holding : layout.Holding data.size start size)
    (cells : place = .resultOffset ∧ length = .resultSize ∨ place = .errorOffset ∧ length = .errorSize)
    (fits : bytes.size ≤ size) (differs : Differs (Touches layout fun cell => cell = .peerReady) data after)
    (answer : Answer layout data flag place length start bytes) : Answer layout after flag place length start bytes := by
  have words : ∀ {cell : ControlCell} {value : UInt32}, cell.Present layout.fields → cell ≠ .peerReady →
      Holds data (cell.offset layout) (Bytes.u32 value) → Holds after (cell.offset layout) (Bytes.u32 value) :=
    fun present other held => differs.keepsCell serves _ present other held
  have present : place.Present layout.fields ∧ length.Present layout.fields := by
    rcases cells with ⟨rfl, rfl⟩ | ⟨rfl, rfl⟩ <;> exact ⟨trivial, trivial⟩
  have apart : place ≠ .peerReady ∧ length ≠ .peerReady := by
    rcases cells with ⟨rfl, rfl⟩ | ⟨rfl, rfl⟩ <;> decide
  refine ⟨words trivial nofun answer.ready, words trivial nofun answer.flagged, words present.1 apart.1 answer.place,
    words present.2 apart.2 answer.length, differs.keeps _ _ answer.bytes fun k low high => ?_⟩
  exact touches_outside serves holding low (by omega)

theorem Reply.Left.kept (serves : Layout.standard.Serves data.size)
    (differs : Differs (Touches .standard fun cell => cell = .peerReady) data after) (left : reply.Left data) :
    reply.Left after := by
  cases left with
  | result shown encoded fits left =>
    exact .result shown encoded fits (left.kept serves serves.results (.inl ⟨rfl, rfl⟩) fits differs)
  | failure shown fits left => exact .failure shown fits (left.kept serves serves.error (.inr ⟨rfl, rfl⟩) fits differs)

theorem Differs.low (serves : Layout.standard.Serves data.size)
    (differs : Differs (Touches .standard fun cell => cell = .peerReady) data after) (low : ¬ Rung data) :
    ¬ Rung after := by
  have room : 4 ≤ data.size := Nat.le_trans (by decide) serves.room
  obtain ⟨value, held, other⟩ := (not_rung room).mp low
  have kept := differs.keepsCell serves .requestReady trivial nofun held
  exact (not_rung (differs.size ▸ room)).mpr ⟨value, kept, other⟩

end kept

theorem Views.same {memory : Memory} {id : RegionId} {number other : Nat} {first second : ByteArray}
    (one : Views memory id number first) (two : Views memory id other second) : first = second := by
  obtain rfl := Option.some.inj (one.fileOf.symm.trans two.fileOf)
  obtain ⟨file, stored, rfl⟩ := one.file
  obtain ⟨same, again, rfl⟩ := two.file
  obtain rfl := Option.some.inj (stored.symm.trans again)
  rfl

namespace Docket
variable {guards : RegionId → Prop} {start number index : Nat} {docket next : Docket} {memory later : Memory}
  {id : RegionId} {data after : ByteArray} {taker : ProtocolPeer} {request : ProtocolRequest} {entry : Taken}
  {skip : Option Nat} {host : ProtocolHost}

theorem Mailbox.low (box : Mailbox start number id docket memory data) (views : Views later id number after)
    (silent : memory.Silent later) (low : ¬ Rung data) : ¬ Rung after := by
  intro rung
  obtain ⟨file, stored, rfl⟩ := box.views.file
  obtain ⟨kept, there, -, down⟩ := silent.file number file stored (Nat.le_trans (by decide) box.room)
  obtain ⟨same, again, rfl⟩ := views.file
  obtain rfl := Option.some.inj (there.symm.trans again)
  exact low (down rung)

-- The requests that were taken from regions of the file were taken before the start and are answered, one aside.
def Settled (start number : Nat) (docket : Docket) (memory : Memory) (skip : Option Nat) : Prop :=
  ∀ index entry, From number docket memory index entry → skip = some index ∨ index < start ∧ entry.reply ≠ none

structure Only (start number : Nat) (docket : Docket) (memory : Memory) (index : Nat) (entry : Taken) : Prop where
  begun : start ≤ index
  found : From number docket memory index entry
  others : Settled start number docket memory (some index)

structure Lies (request : ProtocolRequest) (data : ByteArray) : Prop where
  few : request.args.length ≤ Layout.maxArgs
  shallow : ∀ value ∈ request.args, value.depth ≤ WireValue.maxDepth
  staged : CallStaged .standard data request.functionId request.args

structure Quiet (start number : Nat) (id : RegionId) (docket : Docket) (memory : Memory) (data : ByteArray) : Prop
    extends Mailbox start number id docket memory data where
  low : ¬ Rung data
  settled : Settled start number docket memory none

inductive Progress (start number : Nat) (docket : Docket) (memory : Memory) (data : ByteArray) (request : ProtocolRequest) :
    Prop where
  | waiting : Rung data → Lies request data → Settled start number docket memory none →
      Progress start number docket memory data request
  | taken {index : Nat} {taker : ProtocolPeer} : ¬ Rung data →
      Holds data (ControlCell.responseReady.offset .standard) (Bytes.u32 0) →
      Only start number docket memory index ⟨taker, request, none⟩ → Progress start number docket memory data request
  | answered {index : Nat} {taker : ProtocolPeer} {reply : Reply} : ¬ Rung data → reply.Left data →
      Only start number docket memory index ⟨taker, request, some reply⟩ →
      Progress start number docket memory data request

structure Busy (start number : Nat) (id : RegionId) (request : ProtocolRequest) (docket : Docket) (memory : Memory)
    (data : ByteArray) : Prop extends Mailbox start number id docket memory data where
  progress : Progress start number docket memory data request

section apart
variable (beside : Apart number docket memory next later)
include beside

theorem Settled.apart (settled : Settled start number docket memory skip) : Settled start number next later skip :=
  fun index entry found => settled index entry ((beside.same index entry).mp found)

theorem Only.apart (only : Only start number docket memory index entry) : Only start number next later index entry :=
  ⟨only.begun, (beside.same index entry).mpr only.found, only.others.apart beside⟩

theorem Progress.apart (serves : Layout.standard.Serves data.size)
    (differs : Differs (Touches .standard fun cell => cell = .peerReady) data after)
    (progress : Progress start number docket memory data request) : Progress start number next later after request := by
  cases progress with
  | waiting rung lies settled =>
    refine .waiting (differs.keepsCell serves .requestReady trivial nofun rung) ⟨lies.few, lies.shallow, ?_⟩
      (settled.apart beside)
    exact lies.staged.kept serves lies.few (by simp) (by simp) differs
  | taken low down only =>
    exact .taken (differs.low serves low) (differs.keepsCell serves .responseReady trivial nofun down) (only.apart beside)
  | answered low lies only => exact .answered (differs.low serves low) (lies.kept serves differs) (only.apart beside)

end apart

theorem Quiet.move (quiet : Quiet start number id docket memory data) (chosen : guards id)
    (move : Move guards (docket, memory) (next, later)) : ∃ after, Quiet start number id next later after := by
  cases quiet.toMailbox.move chosen move with
  | beside apart box differs => exact ⟨_, box, differs.low quiet.serves quiet.low, quiet.settled.apart apart⟩
  | poll among shared =>
    rw [ProtocolPeer.pollRequest_low (quiet.ends _ among).1 quiet.serves shared quiet.low]
    exact ⟨data, quiet⟩
  | answer found _ _ _ _ =>
    rcases quiet.settled _ _ found with other | ⟨-, answered⟩
    · cases other
    · exact absurd rfl answered

theorem Busy.taken (box : Mailbox start number id docket memory data) (among : taker ∈ docket.ends)
    (shared : Shared memory taker.block.region id data) (rung : Rung data) (lies : Lies request data)
    (settled : Settled start number docket memory none) :
    ∃ after, Busy start number id request (docket.poll taker (answered (taker.pollRequest memory)))
      (left (taker.pollRequest memory)) after := by
  have standard := (box.ends taker among).1
  have follows := box.toSound.poll_follows among
  have sound : Sound start _ _ := (@Move.poll (fun _ => True) docket memory taker among).sound box.toSound
  obtain ⟨later, after, polled, down⟩ := ProtocolPeer.pollRequest_done (standard ▸ box.serves) shared
    (standard ▸ lies.few) (Nat.lt_of_le_of_lt lies.few (by decide)) lies.shallow (standard ▸ rung) (standard ▸ lies.staged)
  rw [polled.ran] at follows sound ⊢
  obtain ⟨other, mine, views⟩ := polled.shared
  obtain rfl : other = number := Option.some.inj (views.fileOf.symm.trans (follows.drifts.fileOf box.views.fileOf))
  have still := box.carried follows views polled.differs.size
  rw [standard] at down polled
  have lowered := (not_rung (Nat.le_trans (by decide) still.room)).mpr ⟨0, down, by decide⟩
  refine ⟨after, ⟨sound, views, still.room, still.sizes⟩, .taken lowered
    (polled.differs.keepsCell box.serves .responseReady trivial nofun lies.staged.unanswered)
    ⟨box.begun, ⟨List.getElem?_concat_length, mine.fileOf⟩, fun place entry found => ?_⟩⟩
  rcases getElem?_concat_cases found.1 with old | ⟨rfl, -⟩
  · have before := settled place entry ⟨old, box.toSound.shows follows.drifts (box.takers _ (List.mem_of_getElem? old)) found.2⟩
    exact .inr (before.resolve_left nofun)
  · exact .inl rfl

theorem Busy.replied {reply : Reply} (box : Mailbox start number id docket memory data) (low : ¬ Rung data)
    (only : Only start number docket memory index ⟨taker, request, none⟩) (sent : reply.send taker memory = .ok () later)
    (views : Views later id number after) (size : after.size = data.size) (lies : reply.Left after) :
    Busy start number id request (docket.answer index reply (.ok ())) later after := by
  have waits := only.found.1
  have among := box.takers _ (List.mem_of_getElem? waits)
  have follows := box.toSound.answer_follows waits reply
  have sound : Sound start _ _ :=
    (@Move.answer (fun _ => True) docket memory index taker request reply waits).sound box.toSound
  have silent := ProtocolPeer.send_along (PeerWrites.silent _) (box.ends taker among).1 reply memory
  rw [sent] at follows sound silent
  have still := box.carried follows views size
  refine ⟨⟨sound, views, still.room, still.sizes⟩, .answered (box.low views silent low) lies
    ⟨only.begun, ⟨?_, follows.drifts.fileOf only.found.2⟩, fun place entry found => ?_⟩⟩
  · change (docket.taken.modify index _)[index]? = _
    rw [List.getElem?_modify, waits]
    simp
  · obtain ⟨found, shows⟩ := found
    change (docket.taken.modify index _)[place]? = _ at found
    rw [List.getElem?_modify] at found
    obtain ⟨before, there, same⟩ := Option.map_eq_some_iff.mp found
    by_cases here : index = place
    · exact .inl (congrArg some here)
    · rw [if_neg here] at same
      obtain rfl := same
      refine only.others place before ⟨there, ?_⟩
      exact box.toSound.shows follows.drifts (box.takers _ (List.mem_of_getElem? there)) shows

theorem Busy.move (busy : Busy start number id request docket memory data) (chosen : guards id)
    (move : Move guards (docket, memory) (next, later)) : ∃ after, Busy start number id request next later after := by
  obtain ⟨box, progress⟩ := busy
  cases box.move chosen move with
  | beside apart still differs => exact ⟨_, still, progress.apart apart box.serves differs⟩
  | @poll taker among shared =>
    have idle : ¬ Rung data → taker.pollRequest memory = .ok none memory :=
      ProtocolPeer.pollRequest_low (box.ends taker among).1 box.serves shared
    cases progress with
    | waiting rung lies settled => exact Busy.taken box among shared rung lies settled
    | taken low down only =>
      rw [idle low]
      exact ⟨data, box, .taken low down only⟩
    | answered low lies only =>
      rw [idle low]
      exact ⟨data, box, .answered low lies only⟩
  | answer found sent views size lies =>
    cases progress with
    | waiting rung lies settled =>
      -- Every request before this one is answered, so there is none to answer.
      rcases settled _ _ found with other | ⟨-, replied⟩
      · cases other
      · exact absurd rfl replied
    | taken low down only =>
      rcases only.others _ _ found with same | ⟨-, replied⟩
      · cases same
        cases only.found.1.symm.trans found.1
        exact ⟨_, Busy.replied box low only sent views size lies⟩
      · exact absurd rfl replied
    | answered low lies only =>
      rcases only.others _ _ found with same | ⟨-, replied⟩
      · cases same
        cases only.found.1.symm.trans found.1
      · exact absurd rfl replied

theorem Quiet.stands (quiet : Quiet start number id docket memory data) (stands : memory.Stands (· = id) later) :
    Quiet start number id docket later data :=
  ⟨quiet.toMailbox.stands stands, quiet.low,
    quiet.settled.apart (quiet.toMailbox.toSound.apart stands.follows.drifts number)⟩

theorem Busy.stands (busy : Busy start number id request docket memory data) (stands : memory.Stands (· = id) later) :
    Busy start number id request docket later data :=
  ⟨busy.toMailbox.stands stands, busy.progress.apart (busy.toMailbox.toSound.apart stands.follows.drifts number) busy.serves
    (.refl _ data)⟩

structure Collected (start number : Nat) (id : RegionId) (request : ProtocolRequest)
    (outcome : Except ProtocolError WireValue) (docket : Docket) (memory : Memory) (data : ByteArray) : Prop
    extends Mailbox start number id docket memory data where
  low : ¬ Rung data
  reply : ∃ index taker reply, Only start number docket memory index ⟨taker, request, some reply⟩ ∧
    (outcome = reply.shown ∨ ∃ e, outcome = .error e ∧ ¬ e.FromPeer)

theorem Collected.stands {outcome : Except ProtocolError WireValue}
    (collected : Collected start number id request outcome docket memory data) (stands : memory.Stands (· = id) later) :
    Collected start number id request outcome docket later data := by
  obtain ⟨box, low, index, taker, reply, only, came⟩ := collected
  exact ⟨box.stands stands, low, index, taker, reply, only.apart (box.toSound.apart stands.follows.drifts number), came⟩

section host
variable {touched : Nat → Prop}

theorem Quiet.written (quiet : Quiet start number id docket memory data) (through : memory.Through id touched later)
    (silent : memory.Silent later) : ∃ after, Quiet start number id docket later after := by
  obtain ⟨after, box, -⟩ := quiet.toMailbox.written through
  exact ⟨after, box, quiet.toMailbox.low box.views silent quiet.low,
    quiet.settled.apart (quiet.toMailbox.toSound.apart through.follows.drifts number)⟩

variable (standard : host.block.layout = .standard)
include standard

theorem Quiet.staged {function : UInt32} {args : List WireValue} {staged : ProtocolHost}
    (quiet : Quiet start number host.block.region docket memory data)
    (shallow : ∀ value ∈ args, value.depth ≤ WireValue.maxDepth)
    (ran : host.stageCall function args memory = .ok (staged, .ok ()) later) :
    ∃ after, Quiet start number host.block.region docket later after ∧ Lies ⟨function, args⟩ after := by
  obtain ⟨few, bytes, encoded, fits⟩ := ProtocolHost.stageCall_fits function args memory _ _ ran rfl
  have shared : Shared memory host.block.region host.block.region data := ⟨number, quiet.views, quiet.views⟩
  obtain ⟨_, written, does, lies⟩ := ProtocolHost.stageCall_done (standard ▸ quiet.serves) shared function few encoded fits
  cases does.ran.symm.trans ran
  have through := ProtocolHost.stageCall_along (HostWrites.apart _) standard function args memory
  have silent := ProtocolHost.stageCall_silent standard function args memory
  rw [does.ran] at through silent
  obtain ⟨after, still⟩ := quiet.written through silent
  obtain ⟨other, views, -⟩ := does.shared
  obtain rfl := still.views.same views
  rw [standard] at few lies
  exact ⟨after, still, few, shallow, lies⟩

theorem Quiet.raised (fits : host.argCursor ≤ Layout.standard.argsSize)
    (quiet : Quiet start number host.block.region docket memory data) (lies : Lies request data) :
    ∃ later after, host.signalRequest memory = .ok () later ∧
      Busy start number host.block.region request docket later after := by
  have shared : Shared memory host.block.region host.block.region data := ⟨number, quiet.views, quiet.views⟩
  obtain ⟨later, after, rang, rung, staged⟩ := ProtocolHost.signalRequest_done (standard ▸ quiet.serves) shared
    (standard ▸ lies.few) (standard ▸ fits) (standard ▸ lies.staged)
  have follows := @ProtocolHost.signalRequest_along Memory.Follows _ host standard (Memory.write_follows _ _ _) memory
  rw [rang.ran] at follows
  obtain ⟨other, views, -⟩ := rang.shared
  obtain rfl : other = number := Option.some.inj (views.fileOf.symm.trans (follows.drifts.fileOf quiet.views.fileOf))
  rw [standard] at rung staged
  exact ⟨later, after, rang.ran, quiet.toMailbox.carried follows views rang.differs.size,
    .waiting rung ⟨lies.few, lies.shallow, staged⟩ (quiet.settled.apart (quiet.toMailbox.toSound.apart follows.drifts _))⟩

theorem Busy.collected (busy : Busy start number host.block.region request docket memory data) :
    answered (host.takeResponse memory) = .error (.timeout host.timeout) ∨
      ∃ after, Collected start number host.block.region request (answered (host.takeResponse memory)) docket
        (left (host.takeResponse memory)) after := by
  obtain ⟨box, progress⟩ := busy
  have shared : Shared memory host.block.region host.block.region data := ⟨number, box.views, box.views⟩
  cases progress with
  | waiting rung lies settled =>
    exact .inl (ProtocolHost.takeResponse_unanswered box.serves standard shared lies.staged.unanswered)
  | taken low down only => exact .inl (ProtocolHost.takeResponse_unanswered box.serves standard shared down)
  | answered low lies only =>
    have through := ProtocolHost.takeResponse_along (HostWrites.apart _) standard memory
    have silent := ProtocolHost.takeResponse_silent standard memory
    obtain ⟨after, still, -⟩ := box.written through
    exact .inr ⟨after, still, box.low still.views silent low, _, _, _,
      only.apart (box.toSound.apart through.follows.drifts number),
      ProtocolHost.takeResponse_left box.serves standard shared lies⟩

end host

section beginnings

def Rests (id : RegionId) (docket : Docket) (memory : Memory) : Prop :=
  ∃ number data, Quiet docket.taken.length number id docket memory data

theorem Mailbox.renewed (box : Mailbox start number id docket memory data) :
    Mailbox docket.taken.length number id docket memory data :=
  ⟨⟨Nat.le_refl _, box.takers, box.ends⟩, box.views, box.room, box.sizes⟩

theorem Quiet.renewed (quiet : Quiet start number id docket memory data) :
    Rests id docket memory := by
  refine ⟨number, data, quiet.toMailbox.renewed, quiet.low, fun index entry found => .inr ⟨?_, ?_⟩⟩
  · exact (List.getElem?_eq_some_iff.mp found.1).1
  · exact ((quiet.settled index entry found).resolve_left nofun).2

theorem Collected.renewed {outcome : Except ProtocolError WireValue}
    (collected : Collected start number id request outcome docket memory data) :
    Rests id docket memory := by
  obtain ⟨box, low, index, taker, reply, only, -⟩ := collected
  refine ⟨number, data, box.renewed, low, fun place entry found => .inr ⟨(List.getElem?_eq_some_iff.mp found.1).1, ?_⟩⟩
  rcases only.others place entry found with same | ⟨-, replied⟩
  · cases same
    cases only.found.1.symm.trans found.1
    exact nofun
  · exact replied

theorem Rests.fresh {base : Memory} {path : String} {other : RegionId} (sound : Sound 0 docket base)
    (owned : Private base memory path id other (zeros Layout.standard.totalSize)) :
    Rests id docket memory := by
  obtain ⟨number, recent, -, views, -⟩ := owned.lies
  have size : (zeros Layout.standard.totalSize).size = Layout.standard.totalSize := size_zeros _
  have apart : ∀ taker ∈ docket.ends, memory.fileOf? taker.block.region ≠ some number := by
    intro taker among shows
    obtain ⟨-, region, found, -, file, stored⟩ := sound.ends taker among
    have here := sound.shows owned.keeps.follows.drifts among shows
    obtain rfl : region.file = number := Option.some.inj ((congrArg (Option.map Region.file) found).symm.trans here)
    exact absurd (Array.getElem?_eq_some_iff.mp stored).1 (Nat.not_lt.mpr recent)
  obtain ⟨-, takers, ends⟩ := sound.follows owned.keeps.follows
  refine ⟨number, _, ⟨⟨Nat.le_refl _, takers, ends⟩, views, Nat.le_of_eq size.symm, ?_⟩, ?_, fun index entry found => ?_⟩
  · intro taker among region found shows
    exact absurd (Option.map_eq_some_iff.mpr ⟨region, found, shows⟩) (apart taker among)
  · have zero : Bytes.u32 0 = zeros 4 := by decide +kernel
    refine (not_rung (by rw [size]; decide)).mpr ⟨0, ?_, by decide⟩
    exact zero ▸ zeros_holds (by decide)
  · exact absurd found.2 (apart _ (sound.takers _ (List.mem_of_getElem? found.1)))

end beginnings

end Docket
end PluginBridge
