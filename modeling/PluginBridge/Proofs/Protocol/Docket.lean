import Mathlib.Logic.Relation
import PluginBridge.Proofs.Protocol.Preloading
import PluginBridge.Proofs.Protocol.Replies
namespace PluginBridge

structure Taken where
  taker : ProtocolPeer
  request : ProtocolRequest
  reply : Option Reply

-- What a peer did over protocols: where it attached, and the requests in the order in which it took them.
structure Docket where
  ends : List ProtocolPeer
  taken : List Taken

def Memory.fileOf? (memory : Memory) (id : RegionId) : Option Nat := (memory.region? id).map Region.file

namespace Memory
variable {memory later : Memory} {id : RegionId} {number : Nat}

-- Regions stay where they are, whatever becomes of the way in which they are mapped; files stay where they are.
structure Drifts (earlier later : Memory) : Prop where
  region : ∀ id region, earlier.region? id = some region →
    ∃ mapping, later.region? id = some { region with mapping := mapping }
  file : ∀ index file, earlier.file? index = some file → ∃ kept, later.file? index = some kept

def Retains (id : RegionId) (earlier later : Memory) : Prop :=
  ∀ region, earlier.region? id = some region →
    later.region? id = some region ∨ later.region? id = some region.ended

theorem Follows.drifts (follows : memory.Follows later) : memory.Drifts later :=
  ⟨fun id region found => (follows.region id region found).imp fun _ still => still.1,
    fun index file found => (follows.file index file found).imp fun _ still => still.1⟩

theorem Follows.retains (follows : memory.Follows later) (id : RegionId) : Retains id memory later := by
  intro region found
  obtain ⟨mapping, still, rfl | rfl⟩ := follows.region id region found
  · exact .inl still
  · exact .inr still

theorem Drifts.regions (drifts : memory.Drifts later) : memory.regions.size ≤ later.regions.size :=
  regions_grown fun id region found => (drifts.region id region found).elim fun _ still => ⟨_, still⟩

theorem Drifts.fileOf (drifts : memory.Drifts later) (shows : memory.fileOf? id = some number) :
    later.fileOf? id = some number := by
  obtain ⟨region, found, rfl⟩ := Option.map_eq_some_iff.mp shows
  obtain ⟨mapping, still⟩ := drifts.region id region found
  exact Option.map_eq_some_iff.mpr ⟨_, still, rfl⟩

end Memory

theorem Views.fileOf {memory : Memory} {id : RegionId} {number : Nat} {data : ByteArray}
    (views : Views memory id number data) : memory.fileOf? id = some number := by
  obtain ⟨region, found, -, shows, -⟩ := views.region
  exact Option.map_eq_some_iff.mpr ⟨region, found, shows⟩

theorem ProtocolPeer.attach_cases (path : String) (memory : Memory) :
    memory.Keeps (left (attach path .standard memory)) ∧
      ∀ taker, answered (attach path .standard memory) = .ok taker → taker.block.layout = .standard ∧
        ∃ region file, (left (attach path .standard memory)).region? taker.block.region = some region ∧
          region.mapping = .readWrite ∧ region.size = file.bytes.size ∧
          (left (attach path .standard memory)).file? region.file = some file := by
  cases opened : Memory.attach path memory with
  | error e later =>
    obtain rfl := Memory.openPath_refused opened
    have failed : attach path .standard later = .error (.region e) later :=
      bind_failed (by simp only [ProtocolRegion.access, EStateM.adaptExcept, opened])
    rw [failed]
    exact ⟨.refl _, fun taker other => by cases other⟩
  | ok id later =>
    have keeps := Memory.openPath_keeps opened
    have begun : attach path .standard memory =
        (ProtocolRegion.ofRegion id .standard >>= fun block => Pure.pure ⟨block⟩) later :=
      bind_done (ProtocolRegion.access_done opened)
    -- The region is opened before the layout is compared with its size.
    have checked : ProtocolRegion.ofRegion id .standard later = .ok ⟨id, .standard⟩ later ∨
        ProtocolRegion.ofRegion id .standard later = .error .inconsistentLayout later := by
      by_cases fits : ProtocolRegion.fits .standard (((later.region? id).map Region.size).getD 0) = true
      · exact .inl (congrFun (if_pos fits) later)
      · exact .inr (congrFun (if_neg fits) later)
    rcases checked with fits | refused
    · rw [begun, bind_done fits]
      refine ⟨keeps, fun taker same => ?_⟩
      cases same
      unfold Memory.attach Memory.openPath at opened
      split at opened
      · cases opened
      · rename_i number found
        dsimp only at opened
        split at opened
        · cases opened
        · cases opened
          obtain ⟨inside, -⟩ := Array.findIdx?_eq_some_iff_getElem.mp found
          have stored : memory.file? number = some memory.files[number] := Array.getElem?_eq_getElem inside
          exact ⟨rfl, _, _, Array.getElem?_push_size, rfl, by rw [stored]; rfl, stored⟩
    · rw [begun, bind_failed refused]
      exact ⟨keeps, fun taker other => by cases other⟩

theorem ProtocolPeer.attach_done {base memory : Memory} {path : String} {id : RegionId} {data : ByteArray}
    (owned : Private base memory path id id data) (room : Layout.standard.totalSize ≤ data.size) :
    ∃ view later, attach path .standard memory = .ok ⟨⟨view, .standard⟩⟩ later ∧ Private base later path id view data := by
  have something : data.size ≠ 0 := Nat.ne_of_gt (Nat.lt_of_lt_of_le (by decide) room)
  obtain ⟨view, later, attached, placed⟩ := owned.attach something
  refine ⟨view, later, ?_, placed⟩
  rw [attach, bind_done (ProtocolRegion.access_done attached),
    bind_done (placed.shared.symm.ofRegion Layout.standard_consistent room)]
  rfl

namespace Docket

def empty : Docket := ⟨[], []⟩

def attach (outcome : Except ProtocolError ProtocolPeer) (docket : Docket) : Docket :=
  match outcome with
  | .ok taker => { docket with ends := docket.ends ++ [taker] }
  | .error _ => docket

def poll (taker : ProtocolPeer) (outcome : Except ProtocolError (Option ProtocolRequest)) (docket : Docket) : Docket :=
  match outcome with
  | .ok (some request) => { docket with taken := docket.taken ++ [⟨taker, request, none⟩] }
  | _ => docket

def answer (index : Nat) (reply : Reply) (outcome : Except ProtocolError Unit) (docket : Docket) : Docket :=
  match outcome with
  | .ok _ => { docket with taken := docket.taken.modify index fun entry => { entry with reply := some reply } }
  | .error _ => docket

-- One thing that a peer does. It answers a request that it took, and did not answer yet, whenever that is.
-- Whatever else goes on leaves alone what the guarded regions show and how the peer's own ends are mapped;
-- elsewhere the system may begin to fail to write out what was written.
inductive Move (guards : RegionId → Prop) : Docket × Memory → Docket × Memory → Prop where
  | attach {docket memory} (path : String) : Move guards (docket, memory)
      (docket.attach (answered (ProtocolPeer.attach path .standard memory)),
        left (ProtocolPeer.attach path .standard memory))
  | ready {docket memory taker} : taker ∈ docket.ends →
      Move guards (docket, memory) (docket, left (taker.markReady memory))
  | poll {docket memory taker} : taker ∈ docket.ends → Move guards (docket, memory)
      (docket.poll taker (answered (taker.pollRequest memory)), left (taker.pollRequest memory))
  | answer {docket memory index taker request} (reply : Reply) :
      docket.taken[index]? = some ⟨taker, request, none⟩ → Move guards (docket, memory)
        (docket.answer index reply (answered (reply.send taker memory)), left (reply.send taker memory))
  | other {docket memory later} : memory.Drifts later → memory.Lets guards (fun _ => False) later →
      (∀ taker ∈ docket.ends, Memory.Retains taker.block.region memory later) →
      Move guards (docket, memory) (docket, later)

variable {guards : RegionId → Prop} {start number : Nat} {docket next : Docket} {memory later : Memory} {id : RegionId}
  {data after : ByteArray} {taker : ProtocolPeer}

structure Sound (start : Nat) (docket : Docket) (memory : Memory) : Prop where
  begun : start ≤ docket.taken.length
  takers : ∀ entry ∈ docket.taken, entry.taker ∈ docket.ends
  ends : ∀ taker ∈ docket.ends, taker.block.layout = .standard ∧ ∃ region, memory.region? taker.block.region = some region ∧
    (region.mapping = .readWrite ∨ region.mapping = .unmapped) ∧ ∃ file, memory.file? region.file = some file

theorem Sound.drifts (sound : Sound start docket memory) (drifts : memory.Drifts later)
    (retains : ∀ taker ∈ docket.ends, Memory.Retains taker.block.region memory later) : Sound start docket later := by
  refine ⟨sound.begun, sound.takers, fun taker among => ?_⟩
  obtain ⟨standard, region, found, usable, file, stored⟩ := sound.ends taker among
  obtain ⟨kept, there⟩ := drifts.file _ file stored
  rcases retains taker among region found with still | still
  · exact ⟨standard, region, still, usable, kept, there⟩
  · exact ⟨standard, region.ended, still, .inr rfl, kept, there⟩

theorem Sound.follows (sound : Sound start docket memory) (follows : memory.Follows later) : Sound start docket later :=
  sound.drifts follows.drifts fun taker _ => follows.retains taker.block.region

section acts
variable (sound : Sound start docket memory)
include sound

theorem Sound.ready_follows (among : taker ∈ docket.ends) : memory.Follows (left (taker.markReady memory)) :=
  ProtocolPeer.markReady_along (fun offset bytes _ => Memory.write_follows _ offset bytes) (sound.ends _ among).1 memory

theorem Sound.poll_follows (among : taker ∈ docket.ends) : memory.Follows (left (taker.pollRequest memory)) :=
  ProtocolPeer.pollRequest_along (fun offset bytes _ => Memory.write_follows _ offset bytes) (sound.ends _ among).1 memory

theorem Sound.answer_follows {index : Nat} {request : ProtocolRequest}
    (waits : docket.taken[index]? = some ⟨taker, request, none⟩) (reply : Reply) :
    memory.Follows (left (reply.send taker memory)) :=
  ProtocolPeer.send_along (fun offset bytes _ => Memory.write_follows _ offset bytes)
    (sound.ends _ (sound.takers _ (List.mem_of_getElem? waits))).1 reply memory

end acts

theorem Move.drifts (move : Move guards (docket, memory) (next, later)) (sound : Sound start docket memory) :
    memory.Drifts later ∧ ∀ taker ∈ docket.ends, Memory.Retains taker.block.region memory later := by
  have acted : memory.Follows later →
      memory.Drifts later ∧ ∀ taker ∈ docket.ends, Memory.Retains taker.block.region memory later :=
    fun follows => ⟨follows.drifts, fun taker _ => follows.retains taker.block.region⟩
  cases move with
  | attach path => exact acted (ProtocolPeer.attach_cases path memory).1.follows
  | ready among => exact acted (sound.ready_follows among)
  | poll among => exact acted (sound.poll_follows among)
  | answer reply waits => exact acted (sound.answer_follows waits reply)
  | other drifts lets retains => exact ⟨drifts, retains⟩

theorem Move.sound (move : Move guards (docket, memory) (next, later)) (sound : Sound start docket memory) :
    Sound start next later := by
  have kept : Sound start docket later := sound.drifts (move.drifts sound).1 (move.drifts sound).2
  cases move with
  | attach path =>
    obtain ⟨-, attached⟩ := ProtocolPeer.attach_cases path memory
    unfold Docket.attach
    split
    · rename_i taker made
      obtain ⟨standard, region, file, found, mapped, -, stored⟩ := attached taker made
      refine ⟨kept.begun, fun entry among => List.mem_append_left _ (kept.takers entry among), fun other among => ?_⟩
      rcases List.mem_append.mp among with old | new
      · exact kept.ends other old
      · cases List.mem_singleton.mp new
        exact ⟨standard, region, found, .inl mapped, file, stored⟩
    · exact kept
  | ready among => exact kept
  | @poll _ _ taker among =>
    unfold Docket.poll
    split
    · refine ⟨Nat.le_trans kept.begun (by simp), fun entry inside => ?_, kept.ends⟩
      rcases List.mem_append.mp inside with old | new
      · exact kept.takers entry old
      · cases List.mem_singleton.mp new
        exact among
    · exact kept
  | answer reply waits =>
    unfold Docket.answer
    split
    · refine ⟨by simpa using kept.begun, fun entry inside => ?_, kept.ends⟩
      obtain ⟨place, found⟩ := List.mem_iff_getElem?.mp inside
      rw [List.getElem?_modify] at found
      obtain ⟨before, there, rfl⟩ := Option.map_eq_some_iff.mp found
      have among := kept.takers before (List.mem_of_getElem? there)
      split <;> exact among
    · exact kept
  | other drifts lets retains => exact kept

theorem Move.run (holds : Docket → Memory → Prop)
    (each : ∀ {docket memory next later}, Move guards (docket, memory) (next, later) →
      holds docket memory → holds next later)
    (moves : Relation.ReflTransGen (Move guards) (docket, memory) (next, later)) (begun : holds docket memory) :
    holds next later := by
  have reached : ∀ {last}, Relation.ReflTransGen (Move guards) (docket, memory) last → holds last.1 last.2 := by
    intro last moves
    induction moves with
    | refl => exact begun
    | tail _ move ih => exact each move ih
  exact reached moves

theorem Move.grown (sound : Sound start docket memory)
    (moves : Relation.ReflTransGen (Move guards) (docket, memory) (next, later)) :
    memory.regions.size ≤ later.regions.size := by
  have kept := Move.run (fun next later => Sound start next later ∧ memory.regions.size ≤ later.regions.size)
    (fun move ⟨sound, grown⟩ => ⟨move.sound sound, Nat.le_trans grown (move.drifts sound).1.regions⟩) moves
  exact (kept ⟨sound, Nat.le_refl _⟩).2

end Docket
end PluginBridge
