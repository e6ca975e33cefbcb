import PluginBridge.Proofs.Protocol.Handshake
import PluginBridge.Proofs.Protocol.Outlasting
import PluginBridge.Proofs.Text.Lossy
namespace PluginBridge
variable {memory : Memory} {data : ByteArray} {host : ProtocolHost} {peer : ProtocolPeer}

theorem failure_carried (agree : peer.block.layout = host.block.layout)
    (shared : Shared memory host.block.region peer.block.region data)
    (serves : host.block.layout.Serves data.size) (text : String) :
    ∃ later, peer.respondError text memory = .ok () later ∧
      host.readResult later = .error (.peer (Text.carried text host.block.layout.errorSize)) later := by
  obtain ⟨later, after, responded, still, size, left⟩ :=
    ProtocolPeer.respondError_cut (agree ▸ serves) shared.symm text
  rw [agree] at left
  refine ⟨later, responded, ProtocolHost.readResult_failed (size ▸ serves) still.symm ?_ left⟩
  rw [ByteArray.size_extract]
  omega

namespace Layout

def compact : Layout where
  controlOffset := 0
  controlSize := 128
  preloadOffset := 128
  preloadSize := 64
  argsOffset := 192
  argsSize := 64
  resultsOffset := 256
  resultsSize := 64
  errorOffset := 320
  errorSize := 16
  totalSize := 336
  fields := .standard

theorem compact_consistent : compact.isConsistent = true := by
  have sorted : compact.sections.mergeSort sectionLe = compact.sections :=
    List.mergeSort_of_pairwise (by decide)
  rw [isConsistent, sorted]
  decide

theorem compact_separate : compact.Separate := by
  refine ⟨standard_separate.apart, fun a present => ?_⟩
  cases a with
  | slot index =>
    simp only [ControlCell.field, ControlCell.Present, compact, ControlFields.standard] at present ⊢
    omega
  | _ => exact of_decide_eq_true rfl

theorem compact_addressable : compact.Addressable := ⟨by decide, by decide, by decide⟩

end Layout

-- What the host is told is a beginning of the text that the peer reported, all of it if it fits,
-- unless the end of the error section falls inside a character: then that character arrives as a
-- replacement character.
theorem failure_truncated (agree : peer.block.layout = host.block.layout)
    (shared : Shared memory host.block.region peer.block.region data)
    (consistent : host.block.layout.isConsistent = true) (separate : host.block.layout.Separate)
    (addressable : host.block.layout.Addressable) (room : host.block.layout.totalSize ≤ data.size)
    (text : String) :
    ∃ later told, peer.respondError text memory = .ok () later ∧
      host.readResult later = .error (.peer told) later ∧
      (text.utf8ByteSize ≤ host.block.layout.errorSize → told = text) ∧
      (told.toList <+: text.toList ↔
        ∀ kept c rest, Text.Halved text host.block.layout.errorSize kept c rest → c = '\uFFFD') ∧
      (∀ kept c rest, Text.Halved text host.block.layout.errorSize kept c rest → told = kept ++ "\uFFFD") ∧
      ((¬ ∃ kept c rest, Text.Halved text host.block.layout.errorSize kept c rest) →
        told.utf8ByteSize = min text.utf8ByteSize host.block.layout.errorSize) := by
  obtain ⟨later, responded, told⟩ := failure_carried agree shared ⟨consistent, separate, addressable, room⟩ text
  exact ⟨later, _, responded, told, Text.carried_fitting, Text.carried_prefix_iff,
    fun _ _ _ halved => Text.carried_halved halved, fun whole => (Text.carried_whole whole).2⟩

theorem failure_truncated_halved : ∃ memory later host peer, host.block.layout = .compact ∧
    peer.block.layout = host.block.layout ∧ host.block.region ≠ peer.block.region ∧
    ProtocolPeer.respondError peer "fourteen bytes😀" memory = .ok () later ∧
    ProtocolHost.readResult host later = .error (.peer "fourteen bytes\uFFFD") later := by
  let host : ProtocolHost := .new ⟨⟨0⟩, .compact⟩ ⟨1⟩
  let peer : ProtocolPeer := ⟨⟨⟨1⟩, .compact⟩⟩
  obtain ⟨later, told, responded, read, -, -, halved, -⟩ := @failure_truncated _ _ host peer rfl
    (BothEnds.twice_shared Layout.compact.totalSize) Layout.compact_consistent Layout.compact_separate
    Layout.compact_addressable (Nat.le_of_eq (size_zeros _).symm) "fourteen bytes😀"
  obtain rfl := halved "fourteen bytes" '😀' "" ⟨by decide, by decide, by decide⟩
  exact ⟨_, later, host, peer, rfl, rfl, by decide, responded, read⟩

-- The second byte of the last character has no room, and what arrives in its place is in no
-- beginning of the text.
theorem failure_altered : ∃ memory later host peer, host.block.layout = .compact ∧
    peer.block.layout = host.block.layout ∧ Layout.compact.isConsistent = true ∧
    Layout.compact.Separate ∧ Layout.compact.Addressable ∧
    Shared memory host.block.region peer.block.region (zeros Layout.compact.totalSize) ∧
    ProtocolPeer.respondError peer "aaaaaaaaaaaaaaaé" memory = .ok () later ∧
    ProtocolHost.readResult host later = .error (.peer "aaaaaaaaaaaaaaa\uFFFD") later ∧
    ¬ "aaaaaaaaaaaaaaa\uFFFD".toList <+: "aaaaaaaaaaaaaaaé".toList := by
  let host : ProtocolHost := .new ⟨⟨0⟩, .compact⟩ ⟨1⟩
  let peer : ProtocolPeer := ⟨⟨⟨1⟩, .compact⟩⟩
  have shared := BothEnds.twice_shared Layout.compact.totalSize
  obtain ⟨later, responded, read⟩ := @failure_carried _ _ host peer rfl shared
    ⟨Layout.compact_consistent, Layout.compact_separate, Layout.compact_addressable,
      Nat.le_of_eq (size_zeros _).symm⟩ "aaaaaaaaaaaaaaaé"
  have halved : Text.Halved "aaaaaaaaaaaaaaaé" 16 "aaaaaaaaaaaaaaa" 'é' "" :=
    ⟨by decide, by decide, by decide⟩
  have told : Text.carried "aaaaaaaaaaaaaaaé" host.block.layout.errorSize = "aaaaaaaaaaaaaaa\uFFFD" :=
    Text.carried_halved halved
  rw [told] at read
  exact ⟨_, later, host, peer, rfl, rfl, Layout.compact_consistent, Layout.compact_separate,
    Layout.compact_addressable, shared, responded, read, by decide⟩

end PluginBridge
