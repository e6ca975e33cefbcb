import PluginBridge.Proofs.Dispatch.Effects
namespace PluginBridge

def PendingVariable.key? : PendingVariable → Option String
  | .found _ _ => none
  | .placed _ key _ => some key

namespace Session
variable {σ : Type} {peer : Peer σ} {session later : Session σ} {entries : List (String × RegionId)}
  {held : List String} {key : String} {link : ProtocolLink}

def Given (manager : RegionManager) (key : String) : Prop := ∃ n < manager.nextKey, key = Store.keyText n

theorem Given.mono {manager after : RegionManager} (given : Given manager key)
    (more : manager.nextKey ≤ after.nextKey) : Given after key := by
  obtain ⟨n, high, same⟩ := given
  exact ⟨n, Nat.lt_of_lt_of_le high more, same⟩

theorem Given.old {manager : RegionManager} (given : Given manager key) : key ≠ Store.keyText manager.nextKey := by
  obtain ⟨n, small, rfl⟩ := given
  exact fun equal => absurd (RegionLedger.keyText_injective equal) (Nat.ne_of_lt small)

def lentKeys (session : Session σ) : List String :=
  session.variableKeys ++ (session.serving.bind PendingVariable.key?).toList

-- Only the entries would be tracked, if the regions that serve calls were given back: the ones that hold
-- variables, and the one under a key that is held.
structure Lends (entries : List (String × RegionId)) (held : List String) (session : Session σ) : Prop where
  rest : (session.store.manager.tracked.filter fun entry => decide (entry.1 ∉ session.lentKeys ++ held)) = entries
  lent : ∀ key ∈ session.lentKeys ++ held, Given session.store.manager key
  apart : ∀ key ∈ held, key ∉ session.lentKeys
  known : ∀ entry ∈ session.store.manager.tracked, Given session.store.manager entry.1
  link : ∀ link, session.protocol = some link →
    Given session.store.manager link.key ∧ link.key ∉ session.lentKeys ++ held
  single : (session.store.manager.tracked.map Prod.fst).Nodup

namespace Lends

theorem kept (lends : Lends entries held session)
    (tracked : later.store.manager.tracked = session.store.manager.tracked)
    (next : later.store.manager.nextKey = session.store.manager.nextKey)
    (keys : later.lentKeys = session.lentKeys) (same : SameLink session later) :
    Lends entries held later := by
  refine ⟨?_, fun key among => ?_, keys ▸ lends.apart, fun entry among => ?_, fun link linked => ?_,
    tracked ▸ lends.single⟩
  · rw [tracked, keys]
    exact lends.rest
  · exact (lends.lent key (keys ▸ among)).mono (Nat.le_of_eq next.symm)
  · exact (lends.known entry (tracked ▸ among)).mono (Nat.le_of_eq next.symm)
  · obtain ⟨before, there, place⟩ := same link linked
    obtain ⟨given, apart⟩ := lends.link before there
    rw [show link.key = before.key from congrArg Prod.fst place, keys]
    exact ⟨given.mono (Nat.le_of_eq next.symm), apart⟩

theorem lend {id : RegionId} {more : List String} (lends : Lends entries held session)
    (made : Numbered session.store.manager later.store.manager id)
    (keys : ∀ key, key ∈ later.lentKeys ++ more ↔
      key ∈ session.lentKeys ++ held ∨ key = Store.keyText session.store.manager.nextKey)
    (apart : ∀ key ∈ more, key ∉ later.lentKeys) (same : SameLink session later) : Lends entries more later := by
  have grown : session.store.manager.nextKey ≤ later.store.manager.nextKey := made.next ▸ Nat.le_succ _
  have untouched : (session.store.manager.tracked.filter fun entry =>
      entry.1 != Store.keyText session.store.manager.nextKey) = session.store.manager.tracked := by
    refine List.filter_eq_self.mpr fun entry among => ?_
    simpa using (lends.known entry among).old
  have newest : Given later.store.manager (Store.keyText session.store.manager.nextKey) :=
    ⟨_, made.next ▸ Nat.lt_succ_self _, rfl⟩
  -- The key is new, so no entry is replaced by it and nothing was lent under it.
  refine ⟨?_, fun key among => ?_, apart, fun entry among => ?_, fun link linked => ?_, ?_⟩
  · rw [made.tracked, untouched, List.filter_append, ← lends.rest]
    have last : ([(Store.keyText session.store.manager.nextKey, id)].filter fun entry =>
        decide (entry.1 ∉ later.lentKeys ++ more)) = [] := by
      refine List.filter_eq_nil_iff.mpr fun entry inside free => ?_
      cases List.mem_singleton.mp inside
      exact of_decide_eq_true free ((keys _).mpr (.inr rfl))
    rw [last, List.append_nil]
    refine List.filter_congr fun entry among => ?_
    have other := (lends.known entry among).old
    simp only [keys, other, or_false]
  · rcases (keys key).mp among with before | rfl
    · exact (lends.lent key before).mono grown
    · exact newest
  · rw [made.tracked, untouched] at among
    rcases List.mem_append.mp among with before | last
    · exact (lends.known entry before).mono grown
    · cases List.mem_singleton.mp last
      exact newest
  · obtain ⟨before, there, place⟩ := same link linked
    obtain ⟨given, apart⟩ := lends.link before there
    rw [show link.key = before.key from congrArg Prod.fst place]
    exact ⟨given.mono grown, fun inside => ((keys _).mp inside).elim apart given.old⟩
  · rw [made.tracked, untouched, List.map_append]
    refine List.nodup_append.mpr ⟨lends.single, List.nodup_singleton _, fun key inside last among same => ?_⟩
    obtain ⟨entry, there, rfl⟩ := List.mem_map.mp inside
    exact (lends.known entry there).old (same.trans (List.mem_singleton.mp among))

end Lends

theorem Stored.lentKeys (stored : Stored session later) : later.lentKeys = session.lentKeys := by
  rw [Session.lentKeys, stored.variableKeys, stored.serving]
  rfl

theorem destroyRegion_stored (key : String) (session : Session σ) : Stored session (session.destroyRegion key) :=
  onStore_stored (Store.destroy key) session

theorem destroyRegion_tracked (key : String) (session : Session σ) :
    (session.destroyRegion key).store.manager = { session.store.manager with
      tracked := session.store.manager.tracked.filter fun entry => entry.1 != key } := by
  rcases destroyRegion_cases key session with ⟨id, -, same⟩ | ⟨absent, same⟩
  · rw [same]
  · have all : (session.store.manager.tracked.filter fun entry => entry.1 != key) = session.store.manager.tracked := by
      rw [Store.lookup?, Option.map_eq_none_iff, List.find?_eq_none] at absent
      refine List.filter_eq_self.mpr fun entry among => ?_
      simpa using absent entry among
    rw [same, all]

theorem destroyRegions_tracked (keys : List String) (session : Session σ) :
    (session.destroyRegions keys).store.manager = { session.store.manager with
      tracked := session.store.manager.tracked.filter fun entry => decide (entry.1 ∉ keys) } := by
  induction keys generalizing session with
  | nil => simp [destroyRegions]
  | cons key rest ih =>
    have step := ih (session.destroyRegion key)
    rw [destroyRegion_tracked] at step
    refine step.trans ?_
    simp only [List.filter_filter, List.mem_cons, not_or]
    congr 1
    refine List.filter_congr fun entry _ => ?_
    by_cases same : entry.1 = key <;> simp [same]

theorem Lends.giveBack {more : List String} (lends : Lends entries held session)
    (keys : ∀ other, other ∈ session.lentKeys ++ held ↔ other ∈ session.lentKeys ++ more ∨ other = key)
    (fewer : ∀ other ∈ more, other ∈ held) :
    Lends entries more (session.destroyRegion key) := by
  have kept := destroyRegion_stored key session
  have manager := destroyRegion_tracked key session
  have given : ∀ {name}, Given session.store.manager name → Given (session.destroyRegion key).store.manager name :=
    fun given => given.mono (Nat.le_of_eq (congrArg RegionManager.nextKey manager).symm)
  refine ⟨?_, fun other among => ?_, fun other among => ?_, fun entry among => ?_, fun link linked => ?_,
    ?_⟩
  · rw [manager, kept.lentKeys, ← lends.rest, List.filter_filter]
    refine List.filter_congr fun entry _ => ?_
    by_cases same : entry.1 = key <;> simp [keys, same]
  · exact given (lends.lent other ((keys other).mpr (.inl (kept.lentKeys ▸ among))))
  · exact kept.lentKeys ▸ lends.apart other (fewer other among)
  · rw [manager] at among
    exact given (lends.known entry (List.mem_of_mem_filter among))
  · obtain ⟨there, apart⟩ := lends.link link (kept.protocol.symm.trans linked)
    exact ⟨given there, fun inside => apart ((keys _).mpr (.inl (kept.lentKeys ▸ inside)))⟩
  · rw [manager]
    exact lends.single.sublist (List.filter_sublist.map Prod.fst)

theorem shutdownProtocol_tracked (linked : session.protocol = some link) :
    session.shutdownProtocol.store.manager = { session.store.manager with
      tracked := session.store.manager.tracked.filter fun entry => entry.1 != link.key } ∧
    session.shutdownProtocol.lentKeys = session.lentKeys := by
  let begun : Session σ := { session with protocol := none }
  obtain ⟨memory, only⟩ := onMemory_only link.host.requestShutdown begun
  have same : session.shutdownProtocol =
      { ({ begun with store := { begun.store with memory := memory } }).destroyRegion link.key with
        preloaded := none } := by
    rw [← only]
    simp only [shutdownProtocol, linked, retire, begun]
  rw [same]
  exact ⟨destroyRegion_tracked link.key _, (destroyRegion_stored link.key _).lentKeys⟩

theorem Lends.drop (lends : Lends entries held session) (linked : session.protocol = some link) :
    Lends (entries.filter fun entry => entry.1 != link.key) held session.shutdownProtocol := by
  obtain ⟨manager, keys⟩ := shutdownProtocol_tracked linked
  have given : ∀ {name}, Given session.store.manager name → Given session.shutdownProtocol.store.manager name :=
    fun given => given.mono (Nat.le_of_eq (congrArg RegionManager.nextKey manager).symm)
  refine ⟨?_, fun other among => given (lends.lent other (keys ▸ among)), keys ▸ lends.apart, fun entry among => ?_,
    fun other there => ?_, ?_⟩
  · rw [manager, keys, ← lends.rest, List.filter_filter, List.filter_filter]
    exact List.filter_congr fun entry _ => Bool.and_comm _ _
  · rw [manager] at among
    exact given (lends.known entry (List.mem_of_mem_filter among))
  · cases (shutdownProtocol_none session).symm.trans there
  · rw [manager]
    exact lends.single.sublist (List.filter_sublist.map Prod.fst)

theorem Lends.advances {next : Session σ} (lends : Lends entries held session) (step : Advances session next) :
    Lends entries held next := by
  cases step with
  | idle => exact lends
  | @placed callback definition id store content bytes serving filled numbered =>
    have more : ∀ answer key, key ∈ lentKeys { session with
        store := store, serving := some (.placed callback (Store.keyText session.store.manager.nextKey) answer) } ↔
          key ∈ session.lentKeys ∨ key = Store.keyText session.store.manager.nextKey := by
      simp [lentKeys, serving, PendingVariable.key?]
    refine lends.lend numbered (fun key => ?_) (fun key among => ?_) (.of_same rfl)
    · rw [List.mem_append, more, List.mem_append, or_right_comm]
    · rw [more, not_or]
      exact ⟨lends.apart key among, (lends.lent key (List.mem_append_right _ among)).old⟩
  | inline serving memory tracked numbered =>
    have idle : ∀ store stream, lentKeys { session with store := store, serving := none, stream := stream } =
        session.lentKeys := fun _ _ => by simp [lentKeys, serving, PendingVariable.key?]
    exact lends.kept tracked numbered (idle _ _) (.of_same rfl)
  | noted serving =>
    refine lends.kept rfl rfl ?_ (.of_same rfl)
    simp [answerCallback, lentKeys, serving, PendingVariable.key?]

theorem Lends.proceed (lends : Lends entries held session) : Lends entries held session.proceed :=
  lends.advances (proceed_advances session)

theorem take_lentKeys (idle : session.serving = none) (output : PeerOutput) :
    (session.take output).lentKeys = session.lentKeys := by
  unfold Session.take
  split
  · split
    · rfl
    · rename_i callback stream _
      rcases serveCallback_cases callback { session with stream := stream } with ⟨_, same⟩ | ⟨_, same⟩
      · rw [same]
        rfl
      · rw [same]
        simp [lentKeys, idle, PendingVariable.key?]
  · rfl
  · rfl

theorem Lends.take (lends : Lends entries held session) (idle : session.serving = none) (output : PeerOutput) :
    Lends entries held (session.take output) := by
  have store := take_store output session
  exact lends.kept (by rw [store]) (by rw [store]) (take_lentKeys idle output)
    (.of_same (take_aside output session).protocol)

theorem Lends.sendCall (lends : Lends entries held session) (peer : Peer σ) (command : String) (data : Json) :
    Lends entries held (left (sendCall peer command data session)) := by
  refine sendCall_keeps (P := Lends entries held) (fun _ _ lends => lends.kept rfl rfl rfl (.of_same rfl))
    (fun _ lends => lends.proceed) (fun _ _ lends => lends.kept rfl rfl rfl (.of_same rfl))
    (fun before output rest idle _ lends => ?_) command data lends
  have begun : Lends entries held { before with inbox := rest } := lends.kept rfl rfl rfl (.of_same rfl)
  exact begun.take idle output

theorem Lends.place (lends : Lends entries [] session) (args : List CallArg) :
    Lends entries ((session.writeCallRegion args).1.map CallRegion.key).toList
      (session.writeCallRegion args).2 := by
  unfold writeCallRegion
  split
  · exact lends
  · rename_i bytes _
    rcases createFilled_made session (Nat.le_trans (Nat.le_mul_of_pos_right bytes.size Nat.two_pos)
      (Nat.le_max_left _ minCallRegion)) with
      ⟨e, store, refused, -, -, tracked, next⟩ | ⟨id, store, content, made, filled, numbered⟩
    · rw [refused]
      exact lends.kept tracked next rfl (.of_same rfl)
    · rw [made]
      have named := (place_said { session with store := store } filled.owned).2.2
      have same : lentKeys { session with store := store } = session.lentKeys := rfl
      refine lends.lend numbered (fun key => ?_) (fun key among => ?_) (.of_same rfl)
      · simp [named, same]
      · obtain rfl : key = Store.keyText session.store.manager.nextKey := by simpa [named] using among
        exact fun inside => (lends.lent _ (List.mem_append_left _ inside)).old rfl

end Session
end PluginBridge
