import PluginBridge.Proofs.Dispatch.CallRegion
import PluginBridge.Proofs.Region.Bytewise
namespace PluginBridge

theorem Memory.read_within {id : RegionId} {offset length : Nat} {memory later : Memory} {bytes : ByteArray}
    {region : Region} (ran : read id offset length memory = .ok bytes later)
    (found : memory.region? id = some region) : offset + length ≤ region.size ∧ later = memory := by
  simp only [read, found] at ran
  split at ran
  · cases ran
  · split at ran
    · rename_i within
      cases ran
      exact ⟨within, rfl⟩
    · cases ran

namespace RegionCall
variable {σ : Type} {data : Json} {memory opened now later : Memory} {call : RegionCall} {number : Nat}
  {content bytes : ByteArray} {node : Node}

theorem access_parts {α : Type} {action : Access α} {a : α} (ran : access action memory = .ok a later) :
    action memory = .ok a later := by
  cases outcome : action memory with
  | ok b middle =>
    rw [access_done outcome] at ran
    cases ran
    rfl
  | error e middle =>
    rw [access, EStateM.adaptExcept, outcome] at ran
    cases ran

theorem codec_parts {α : Type} {result : Except CodecError α} {a : α} (ran : codec result memory = .ok a later) :
    result = .ok a ∧ later = memory := by
  cases result with
  | ok b =>
    cases ran
    exact ⟨rfl, rfl⟩
  | error e => cases ran

theorem ofJson_within (accepted : ofJson data memory = .ok call opened) : ∃ number content,
    Views opened call.region number content ∧ call.dataSize ≤ content.size := by
  cases asked : RegionCallRequest.ofJson data with
  | error fault =>
    rw [ofJson, asked] at accepted
    cases accepted
  | ok request =>
    rw [ofJson, asked] at accepted
    obtain ⟨id, attached, reached, reads⟩ := bind_parts accepted
    obtain ⟨bytes, same, read, parses⟩ := bind_parts reads
    obtain ⟨root, last, parsed, ended⟩ := bind_parts parses
    cases ended
    obtain ⟨-, rfl⟩ := codec_parts parsed
    obtain ⟨rfl, -⟩ := Memory.openPath_parts (access_parts reached)
    obtain ⟨number, content, -, stored, rfl⟩ := Memory.openPath_opened (access_parts reached)
    obtain ⟨file, found, rfl⟩ := Memory.bytes?_file stored
    obtain ⟨within, rfl⟩ := Memory.read_within (access_parts read) Array.getElem?_push_size
    exact ⟨number, file.bytes, ⟨⟨_, Array.getElem?_push_size, rfl, rfl, rfl⟩, ⟨file, found, rfl⟩⟩,
      by simpa using within⟩

def placed (offset size : Nat) : Json :=
  .ofEntries [("resultOffset", .natural offset), ("resultSize", .natural size)]

def inline (value : Json) : Json := .ofEntries [("json", value)]

theorem placed_ne_inline (offset size : Nat) (value : Json) : placed offset size ≠ inline value := by
  intro same
  have apart : ([("resultOffset", .natural offset), ("resultSize", .natural size)].map
      (Prod.fst : String × Json → String)).Nodup :=
    (by decide : (["resultOffset", "resultSize"] : List String).Nodup)
  have unsaid : (placed offset size).get? "json" = none := Json.get?_ofEntries apart "json"
  have said : (inline value).get? "json" = some value := rfl
  rw [same, said] at unsaid
  cases unsaid

theorem reply_cases (views : Views now call.region number content) (node : Node) :
    (∃ e, node.flatten.bind FlatTree.toBytes = .error e ∧ call.reply node now = .error (.codec e) now) ∨
      (∃ bytes, node.flatten.bind FlatTree.toBytes = .ok bytes ∧
        call.resultOffset + bytes.size ≤ content.size ∧
        ∃ later, Memory.write call.region call.resultOffset bytes now = .ok () later ∧
          call.reply node now = .ok (placed call.resultOffset bytes.size) later) ∨
      ∃ bytes, node.flatten.bind FlatTree.toBytes = .ok bytes ∧
        content.size < call.resultOffset + bytes.size ∧
        call.reply node now = .ok (inline (ResultNode.ofNode node).toJson) now := by
  have shared : Shared now call.region call.region content := ⟨number, views, views⟩
  cases written : node.flatten.bind FlatTree.toBytes with
  | error e =>
    refine .inl ⟨e, rfl, ?_⟩
    rw [reply, written]
    rfl
  | ok bytes =>
    have encoded : codec (node.flatten.bind FlatTree.toBytes) now = .ok bytes now := by
      rw [written]
      rfl
    by_cases room : call.resultOffset + bytes.size ≤ content.size
    · obtain ⟨later, stored, kept⟩ := shared.write room
      refine .inr (.inl ⟨bytes, rfl, room, later, stored, ?_⟩)
      rw [reply, bind_done encoded, bind_done (get_done now)]
      simp only [shared.size, Option.getD_some, if_pos room]
      rw [bind_done (access_done stored), bind_done (access_done kept.sync)]
      rfl
    · refine .inr (.inr ⟨bytes, rfl, Nat.lt_of_not_le room, ?_⟩)
      rw [reply, bind_done encoded, bind_done (get_done now)]
      simp only [shared.size, Option.getD_some, if_neg room]
      rfl

theorem reply_spares (views : Views now call.region number content) (within : call.dataSize ≤ content.size)
    (node : Node) : ∃ after, after.size = content.size ∧
      after.extract 0 call.dataSize = content.extract 0 call.dataSize ∧
      (∀ id, Views now id number content → Views (left (call.reply node now)) id number after) ∧
      (left (call.reply node now)).regions = now.regions ∧
      ∀ other ≠ number, (left (call.reply node now)).file? other = now.file? other := by
  rcases reply_cases views node with ⟨e, -, failed⟩ | ⟨bytes, -, room, later, stored, replied⟩ | ⟨bytes, -, -, replied⟩
  · rw [failed]
    exact ⟨content, rfl, rfl, fun _ views => views, rfl, fun _ _ => rfl⟩
  · have start : call.dataSize ≤ call.resultOffset := by
      rw [resultOffset]
      omega
    have size : (content.extract 0 call.dataSize).size = call.dataSize := by
      rw [ByteArray.size_extract]
      omega
    have held : Holds content 0 (content.extract 0 call.dataSize) := ⟨by omega, by rw [size, Nat.zero_add]⟩
    have kept := (patched_keeps room held (.inl (by omega))).exact
    obtain ⟨_, same, shown⟩ := views.write room
    obtain rfl := (EStateM.Result.ok.inj (stored.symm.trans same)).2
    obtain ⟨region, found, -, numbered, -⟩ := views.region
    obtain ⟨own, again, rfl⟩ := Memory.write_parts stored
    obtain rfl := Option.some.inj (found.symm.trans again)
    rw [replied]
    refine ⟨patched content call.resultOffset bytes, size_patched room, ?_, shown, rfl, fun other apart => ?_⟩
    · rwa [size, Nat.zero_add] at kept
    · exact (Array.getElem?_modify ..).trans (if_neg fun same => apart (same.symm.trans numbered))
  · rw [replied]
    exact ⟨content, rfl, rfl, fun _ views => views, rfl, fun _ _ => rfl⟩

-- A reply leaves the arguments as they are, fails only if the result cannot be written as bytes, and
-- is read by the host as the tree it was given, in whichever of its two forms. In the region the
-- numbers stand as text, so there they have to survive that.
theorem reply_reads_back (accepted : ofJson data memory = .ok call opened)
    (views : Views now call.region number content) (same : now.region? call.region = opened.region? call.region)
    (node : Node) :
    (∃ after, call.dataSize ≤ content.size ∧ after.size = content.size ∧
      after.extract 0 call.dataSize = content.extract 0 call.dataSize ∧
      (∀ id, Views now id number content → Views (left (call.reply node now)) id number after) ∧
      (left (call.reply node now)).regions = now.regions ∧
      ∀ other ≠ number, (left (call.reply node now)).file? other = now.file? other) ∧
    ((∃ e later, call.reply node now = .error e later) ↔
      ∃ e, node.flatten.bind FlatTree.toBytes = .error e) ∧
    (node.Builtin → node.EveryNumber (fun x => x.isFinite = true) →
      ∀ response later, call.reply node now = .ok response later →
        (∃ offset size, response = placed offset size ∧ call.dataSize ≤ offset ∧
          offset + size ≤ content.size ∧
          (node.EveryNumber Binary64.SurvivesText →
            ∀ (region : Session.CallRegion) (session : Session σ), Views now region.id number content →
              session.store.memory = later → ∃ result,
                Session.readResult region response session = .ok (some result) session ∧
                result.toNode = node.bare)) ∨
        ∃ value, response = inline value ∧ later = now ∧ (ResultNode.ofJson value).toNode = node.bare ∧
          ∀ (region : Session.CallRegion) (session : Session σ),
            Session.readResult region response session = .ok (some (.ofJson value)) session) := by
  have within : call.dataSize ≤ content.size := by
    obtain ⟨_, first, started, fits⟩ := ofJson_within accepted
    obtain ⟨region, found, -, -, sized⟩ := started.region
    obtain ⟨again, still, -, -, size⟩ := views.region
    obtain rfl := Option.some.inj (still.symm.trans (same.trans found))
    rwa [← size, sized]
  have start : call.dataSize ≤ call.resultOffset := by
    rw [resultOffset]
    omega
  refine ⟨?_, ?_, fun builtin finite response later replied => ?_⟩
  · obtain ⟨after, size, arguments, shown, rest⟩ := reply_spares views within node
    exact ⟨after, within, size, arguments, shown, rest⟩
  · rcases reply_cases views node with ⟨e, refused, failed⟩ | ⟨bytes, written, -, later, -, replied⟩ |
      ⟨bytes, written, -, replied⟩
    · exact ⟨fun _ => ⟨e, refused⟩, fun _ => ⟨_, _, failed⟩⟩
    · simp [written, replied]
    · simp [written, replied]
  · -- The result has no bytes, or they fit behind the arguments, or it goes into the response.
    rcases reply_cases views node with ⟨e, -, failed⟩ | ⟨bytes, written, room, last, stored, placed⟩ |
      ⟨bytes, -, -, inline⟩
    · cases failed.symm.trans replied
    · cases placed.symm.trans replied
      refine .inl ⟨_, _, rfl, start, room, fun survive region session shows reached => ⟨.ofNode node, ?_, ?_⟩⟩
      · obtain ⟨_, again, shown⟩ := views.write room
        obtain rfl := (EStateM.Result.ok.inj (stored.symm.trans again)).2
        subst reached
        exact Session.readResult_held ⟨number, shown _ shows, shown _ views⟩ (patched_holds room) builtin
          survive written
      · exact ResultNode.toNode_ofNode builtin finite
    · cases inline.symm.trans replied
      refine .inr ⟨_, rfl, rfl, ?_, fun region session => Session.readResult_inline region _ session⟩
      rw [ResultNode.ofJson_toJson (ResultNode.ofNode_regular builtin), ResultNode.toNode_inOrder builtin finite]

section opening
variable {content bytes : ByteArray} {node : Node}

def requestOf (dataSize : Nat) : Json :=
  .ofEntries [("name", .string "f"), ("shmPath", .string "r"), ("dataSize", .natural dataSize)]

theorem requestOf_read (dataSize : Nat) :
    RegionCallRequest.ofJson (requestOf dataSize) = .ok ⟨"f", "r", dataSize, false, false, none⟩ := by
  have apart : (["name", "shmPath", "dataSize"] : List String).Nodup := by decide
  have get := fun key => @Members.get?_collected _ key
    [("name", Json.string "f"), ("shmPath", Json.string "r"), ("dataSize", Json.natural dataSize)] apart
  have read : RegionCallRequest.ofJson? (requestOf dataSize) = some ⟨"f", "r", dataSize, false, false, none⟩ := by
    simp only [RegionCallRequest.ofJson?, requestOf, Json.record?, Json.ofEntries, Json.required, Json.withDefault,
      Json.optional, Option.bind_eq_bind, Option.bind_some, get]
    simp [Members.get?, Json.toWord_natural, Json.toString?]
  simp only [RegionCallRequest.ofJson, Json.Shape.read, read]

def fileOf (content : ByteArray) : Memory := ⟨#[⟨"r", content, true⟩], #[], maxFileSize⟩

theorem opened_alone (written : node.flatten.bind FlatTree.toBytes = .ok bytes) (held : Holds content 0 bytes)
    (something : bytes.size ≠ 0) (builtin : node.Builtin) (survive : node.EveryNumber Binary64.SurvivesText) :
    ∃ call opened, ofJson (requestOf bytes.size) (fileOf content) = .ok call opened ∧
      call.dataSize = bytes.size ∧ Views opened call.region 0 content := by
  have within := held.within
  let opened : Memory := ⟨#[⟨"r", content, true⟩],
    #[⟨Memory.keyOfPath "r", 0, content.size, false, .readWrite⟩], maxFileSize⟩
  have attached : Memory.attach "r" (fileOf content) = .ok ⟨0⟩ opened := by
    have nonempty : ¬ content.size = 0 := by omega
    have found : (fileOf content).findFile? "r" = some 0 := by
      simp [Memory.findFile?, fileOf]
    have size : (((fileOf content).file? 0).map fun file => file.bytes.size).getD 0 = content.size := rfl
    simp only [Memory.attach, Memory.openPath, found, size, if_neg nonempty]
    rfl
  have views : Views opened ⟨0⟩ 0 content := ⟨⟨_, rfl, rfl, rfl, rfl⟩, ⟨_, rfl, rfl⟩⟩
  have shared : Shared opened ⟨0⟩ ⟨0⟩ content := ⟨0, views, views⟩
  have read := shared.read within
  rw [held.exact] at read
  obtain ⟨decoded, -⟩ := Node.decoded builtin survive written
  have parsed : codec ((FlatTree.ofBytes bytes).bind FlatTree.unflatten) opened =
      .ok (node.outline.rebuilt .builtin 0 none) opened := by
    rw [decoded]
    rfl
  let root := node.outline.rebuilt .builtin 0 none
  refine ⟨⟨"f", if root.slot.kind? == some .arguments then root.children else [root], false, false, none, ⟨0⟩,
    bytes.size⟩, opened, ?_, rfl, views⟩
  rw [ofJson, requestOf_read]
  simp only []
  rw [bind_done (access_done attached), bind_done (access_done read), bind_done parsed]
  rfl

theorem keyword_opened (room : Nat) : ∃ content call opened,
    ofJson (requestOf 85) (fileOf content) = .ok call opened ∧ Views opened call.region 0 content ∧
      content.size = 85 + room ∧ call.resultOffset = 88 := by
  have short : ((Node.plain (.keyword "a")).flatten.bind FlatTree.toBytes).toOption.any
      (·.size == 85) = true := by
    decide +kernel
  obtain ⟨bytes, written, size⟩ := except_checked short
  have size : bytes.size = 85 := eq_of_beq size
  obtain ⟨call, opened, accepted, extent, views⟩ := opened_alone written ((Holds.whole bytes).extend (zeros room))
    (by omega) (Node.Within.leaf rfl rfl) (Node.Within.leaf rfl fun x among => absurd among List.not_mem_nil)
  rw [size] at accepted extent
  refine ⟨_, call, opened, accepted, views, by rw [ByteArray.size_append, size, size_zeros], ?_⟩
  rw [resultOffset, extent]

end opening

-- The same length behind the arguments and, where there is no room for it, in the response.
theorem reply_reads_back_either :
    let length := Node.mk ⟨.parens, some "a.less", some 7⟩ (.dimension (.ofNat 2) "em")
    let parenthesized := Node.mk ⟨.parens, none, none⟩ (.dimension (.ofNat 2) "em")
    (∃ content call opened size later result, ofJson (requestOf 85) (fileOf content) = .ok call opened ∧
      call.reply length opened = .ok (placed 88 size) later ∧
      (∃ session : Session Unit, session.store.memory = later ∧
        Session.readResult ⟨call.region, "r", 85⟩ (placed 88 size) session = .ok (some result) session) ∧
      result.toNode = parenthesized) ∧
    ∃ content call opened value, ofJson (requestOf 85) (fileOf content) = .ok call opened ∧
      call.reply length opened = .ok (inline value) opened ∧ (ResultNode.ofJson value).toNode = parenthesized := by
  intro length parenthesized
  have builtin : length.Builtin := Node.Within.leaf rfl rfl
  have every : ∀ holds : Binary64 → Prop, holds (.ofNat 2) → length.EveryNumber holds :=
    fun holds two => Node.Within.leaf rfl fun x among => List.mem_singleton.mp among ▸ two
  have finite := every (fun x => x.isFinite = true) (by decide +kernel)
  have survive := every Binary64.SurvivesText (Binary64.ofNat_survives (by decide))
  have short : (length.flatten.bind FlatTree.toBytes).toOption.any (·.size < 1000) = true := by
    decide +kernel
  obtain ⟨answer, written, small⟩ := except_checked short
  simp only [decide_eq_true_eq] at small
  constructor
  · obtain ⟨content, call, opened, accepted, views, size, start⟩ := keyword_opened 1024
    rcases reply_cases views length with ⟨e, refused, -⟩ | ⟨bytes, -, -, later, -, replied⟩ | ⟨bytes, again, full, -⟩
    · cases written.symm.trans refused
    · rw [start] at replied
      rcases (@reply_reads_back Unit _ _ _ _ _ _ _ accepted views rfl length).2.2 builtin finite _ later replied with
        ⟨_, _, -, -, -, reads⟩ | ⟨value, said, -⟩
      · obtain ⟨result, read, back⟩ := reads survive ⟨call.region, "r", 85⟩
          { Session.start Settings.standard () with store := { Store.new none with memory := later } } views rfl
        exact ⟨content, call, opened, _, later, result, accepted, replied, ⟨_, rfl, read⟩, back⟩
      · exact absurd said (placed_ne_inline _ _ _)
    · cases written.symm.trans again
      omega
  · obtain ⟨content, call, opened, accepted, views, size, start⟩ := keyword_opened 0
    rcases reply_cases views length with ⟨e, refused, -⟩ | ⟨bytes, -, room, -⟩ | ⟨bytes, -, -, replied⟩
    · cases written.symm.trans refused
    · omega
    · rcases (@reply_reads_back Unit _ _ _ _ _ _ _ accepted views rfl length).2.2 builtin finite _ opened replied with
        ⟨_, _, said, -⟩ | ⟨value, said, -, back, -⟩
      · exact absurd said.symm (placed_ne_inline _ _ _)
      · exact ⟨content, call, opened, value, accepted, said ▸ replied, back⟩

-- Through the region a number that its own text is not read as becomes another one.
theorem reply_misread :
    let length := Node.plain (.dimension ⟨0x41cdce0075199abb⟩ "em")
    length.Builtin ∧ length.EveryNumber (fun x => x.isFinite = true) ∧
      ∃ content call opened later bytes result, content.size = 256 ∧
        ofJson (requestOf 85) (fileOf content) = .ok call opened ∧
        call.reply length opened = .ok (placed 88 bytes.size) later ∧
        Memory.read call.region 88 bytes.size later = .ok bytes later ∧
        Session.resultOfBytes bytes = .ok result ∧ result.toNode ≠ length.bare := by
  intro length
  refine ⟨Node.Within.leaf rfl rfl, Node.Within.leaf rfl fun x among => ?_, ?_⟩
  · cases List.mem_singleton.mp among
    decide
  · have checked : (length.flatten.bind FlatTree.toBytes).toOption.any (fun bytes => bytes.size < 160 &&
        (Session.resultOfBytes bytes).toOption.any fun result =>
          result.toNode.body.numbers != length.bare.body.numbers) = true := by
      decide +kernel
    obtain ⟨answer, written, checked⟩ := except_checked checked
    obtain ⟨small, checked⟩ := Bool.and_eq_true_iff.mp checked
    simp only [decide_eq_true_eq] at small
    obtain ⟨result, read, other⟩ := except_checked checked
    obtain ⟨content, call, opened, accepted, views, size, start⟩ := keyword_opened 171
    rcases reply_cases views length with ⟨e, refused, -⟩ | ⟨bytes, again, room, later, stored, replied⟩ | ⟨bytes, again, full, -⟩
    · cases written.symm.trans refused
    · cases written.symm.trans again
      rw [start] at room stored replied
      obtain ⟨_, same, shown⟩ := views.write room
      obtain rfl := (EStateM.Result.ok.inj (stored.symm.trans same)).2
      have held := patched_holds room
      have taken := Shared.read ⟨0, shown _ views, shown _ views⟩ held.within
      rw [held.exact] at taken
      refine ⟨content, call, opened, later, answer, result, size, accepted, replied, taken, read, fun same => ?_⟩
      simp [same] at other
    · cases written.symm.trans again
      omega

end RegionCall
end PluginBridge
