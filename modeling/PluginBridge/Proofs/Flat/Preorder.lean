import PluginBridge.Proofs.Flat.Positions
namespace PluginBridge

namespace Outline

mutual

-- The nodes of a tree whose root lies at `depth`, each with its own depth and before its children.
def preorder (depth : Nat) : Outline → List (Nat × Outline)
  | .mk typeName flags properties children =>
    (depth, .mk typeName flags properties children) :: preorderAll (depth + 1) children

def preorderAll (depth : Nat) : List Outline → List (Nat × Outline)
  | [] => []
  | node :: rest => node.preorder depth ++ preorderAll depth rest

end

def offence? (registry : TypeRegistry) (entry : Nat × Outline) : Option CodecError :=
  if maxTreeDepth < entry.1 then some (.tooDeep maxTreeDepth)
  else if registry.idOf? entry.2.typeName = none then some (.unknownNodeType entry.2.typeName)
  else none

theorem preorder_children (depth : Nat) (node : Outline) :
    node.preorder depth = (depth, node) :: preorderAll (depth + 1) node.children := by
  cases node
  rfl

theorem height_children (node : Outline) : node.height = heightAll node.children + 1 := by
  cases node
  rfl

mutual

theorem preorder_length (depth : Nat) : ∀ node : Outline, (node.preorder depth).length = node.size
  | .mk _ _ _ children => congrArg (· + 1) (preorderAll_length (depth + 1) children)

theorem preorderAll_length (depth : Nat) : ∀ nodes : List Outline, (preorderAll depth nodes).length = sizeAll nodes
  | [] => rfl
  | node :: rest => by
    rw [preorderAll, List.length_append, preorder_length depth node, preorderAll_length depth rest, sizeAll]

end

mutual

theorem every_preorder {holds : Outline → Prop} (depth : Nat) : ∀ node : Outline,
    node.Every holds ↔ ∀ entry ∈ node.preorder depth, holds entry.2
  | .mk _ _ _ children => by
    rw [Every, preorder, List.forall_mem_cons, everyOf_preorder (depth + 1) children]

theorem everyOf_preorder {holds : Outline → Prop} (depth : Nat) : ∀ nodes : List Outline,
    EveryOf holds nodes ↔ ∀ entry ∈ preorderAll depth nodes, holds entry.2
  | [] => ⟨fun _ => List.forall_mem_nil _, fun _ => trivial⟩
  | node :: rest => by
    rw [EveryOf, preorderAll, List.forall_mem_append, every_preorder depth node, everyOf_preorder depth rest]

end

theorem heightAll_le {nodes : List Outline} {limit : Nat} :
    heightAll nodes ≤ limit ↔ ∀ node ∈ nodes, node.height ≤ limit := by
  induction nodes with
  | nil => exact ⟨fun _ => List.forall_mem_nil _, fun _ => Nat.zero_le _⟩
  | cons node rest ih => rw [heightAll, Nat.max_le, ih, List.forall_mem_cons]

mutual

theorem preorder_shallow {limit : Nat} (depth : Nat) : ∀ node : Outline,
    (∀ entry ∈ node.preorder depth, entry.1 ≤ limit) ↔ depth + node.height ≤ limit + 1
  | .mk _ _ _ children => by
    rw [preorder, List.forall_mem_cons, preorderAll_shallow (depth + 1) children, height]
    constructor
    · rintro ⟨here, below⟩
      have high := heightAll_le.mpr fun node among => Nat.le_sub_of_add_le' (below node among)
      omega
    · intro high
      refine ⟨by omega, fun node among => ?_⟩
      have low := heightAll_le.mp (Nat.le_refl _) node among
      omega

theorem preorderAll_shallow {limit : Nat} (depth : Nat) : ∀ nodes : List Outline,
    (∀ entry ∈ preorderAll depth nodes, entry.1 ≤ limit) ↔ ∀ node ∈ nodes, depth + node.height ≤ limit + 1
  | [] => ⟨fun _ => List.forall_mem_nil _, fun _ => List.forall_mem_nil _⟩
  | node :: rest => by
    rw [preorderAll, List.forall_mem_append, preorder_shallow depth node, preorderAll_shallow depth rest,
      List.forall_mem_cons]

end

def ownTexts (node : Outline) : List String := node.properties.flatMap fun field => field.2.texts

def texts (node : Outline) : List String := (node.preorder 0).flatMap fun entry => entry.2.ownTexts

end Outline

namespace Flattening

structure Fields where
  strings : StringTable
  blob : ByteArray

def fields (out : Flattening) : Fields := ⟨out.strings, out.blob⟩

namespace Fields

def add (stock : Fields) (entry : Nat × Outline) : Fields :=
  ⟨(Blob.encode stock.strings entry.2.properties).2,
    stock.blob ++ (Blob.encode stock.strings entry.2.properties).1⟩

def addAll (stock : Fields) (nodes : List (Nat × Outline)) : Fields := nodes.foldl add stock

theorem addAll_append (stock : Fields) (nodes more : List (Nat × Outline)) :
    stock.addAll (nodes ++ more) = (stock.addAll nodes).addAll more :=
  List.foldl_append

theorem addAll_grows (stock : Fields) (nodes : List (Nat × Outline)) :
    StringTable.Extends stock.strings (stock.addAll nodes).strings ∧
      stock.blob.size ≤ (stock.addAll nodes).blob.size := by
  induction nodes generalizing stock with
  | nil => exact ⟨.refl _, Nat.le_refl _⟩
  | cons entry rest ih =>
    obtain ⟨texts, bytes⟩ := ih (stock.add entry)
    refine ⟨(Blob.encode_extends _ _).trans texts, Nat.le_trans ?_ bytes⟩
    rw [add, ByteArray.size_append]
    exact Nat.le_add_right _ _

theorem addAll_strings (stock : Fields) (nodes : List (Nat × Outline)) :
    (stock.addAll nodes).strings = stock.strings.internAll (nodes.flatMap fun entry => entry.2.ownTexts) := by
  induction nodes generalizing stock with
  | nil => rfl
  | cons entry rest ih =>
    rw [List.flatMap_cons, StringTable.internAll_append, Outline.ownTexts, ← Blob.encode_table]
    exact ih (stock.add entry)

theorem addAll_bare (stock : Fields) {nodes : List (Nat × Outline)} (bare : ∀ entry ∈ nodes, entry.2.properties = []) :
    stock.addAll nodes = stock := by
  induction nodes with
  | nil => rfl
  | cons entry rest ih =>
    obtain ⟨first, others⟩ := List.forall_mem_cons.mp bare
    have nothing : stock.add entry = stock := by
      rw [add, first]
      exact congrArg (Fields.mk stock.strings) ByteArray.append_empty
    exact (congrArg (addAll · rest) nothing).trans (ih others)

end Fields

structure Room (out : Flattening) (nodes : List (Nat × Outline)) : Prop where
  places : out.nodes.size + nodes.length ≤ 0x100000000
  bytes : (out.fields.addAll nodes).blob.size < 0x100000000

variable {registry : TypeRegistry} {out later : Flattening} {nodes more : List (Nat × Outline)}

theorem Room.first (room : Room out (nodes ++ more)) : Room out nodes := by
  obtain ⟨places, bytes⟩ := room
  rw [List.length_append] at places
  rw [Fields.addAll_append] at bytes
  exact ⟨by omega, Nat.lt_of_le_of_lt (Fields.addAll_grows _ more).2 bytes⟩

theorem Room.after (room : Room out (nodes ++ more)) (count : later.nodes.size = out.nodes.size + nodes.length)
    (added : later.fields = out.fields.addAll nodes) : Room later more := by
  obtain ⟨places, bytes⟩ := room
  rw [List.length_append] at places
  rw [Fields.addAll_append, ← added] at bytes
  exact ⟨by omega, bytes⟩

theorem enter_fields {typeId : UInt16} {flags : NodeFlags} {properties : List (String × Property)}
    {hasChildren : Bool} {next : Nat} {parent : Option UInt32}
    (done : out.enter typeId flags properties hasChildren next parent = .ok later) :
    later.nodes.size = out.nodes.size + 1 ∧ later.fields =
      ⟨(Blob.encode out.strings properties).2, out.blob ++ (Blob.encode out.strings properties).1⟩ := by
  obtain ⟨_, rfl⟩ := enter_iff.mp done
  exact ⟨Array.size_push _, rfl⟩

theorem Room.enter {entry : Nat × Outline} (room : Room out (entry :: nodes)) (typeId : UInt16) (flags : NodeFlags)
    (hasChildren : Bool) (next : Nat) (parent : Option UInt32) : ∃ later,
      out.enter typeId flags entry.2.properties hasChildren next parent = .ok later ∧ Room later nodes := by
  have both : Room out ([entry] ++ nodes) := room
  obtain ⟨places, bytes⟩ := both.first
  have size : (out.blob ++ (Blob.encode out.strings entry.2.properties).1).size < 0x100000000 := bytes
  rw [List.length_singleton] at places
  rw [ByteArray.size_append] at size
  obtain ⟨later, written⟩ : ∃ later, out.enter typeId flags entry.2.properties hasChildren next parent = .ok later :=
    ⟨_, enter_iff.mpr ⟨⟨by omega, by omega, by omega⟩, rfl⟩⟩
  obtain ⟨count, added⟩ := enter_fields written
  exact ⟨later, written, both.after count added⟩

mutual

theorem lay_fields {depth next : Nat} {parent : Option UInt32} {out later : Flattening} :
    ∀ {node : Outline}, lay registry out depth next parent node = .ok later →
      later.nodes.size = out.nodes.size + (node.preorder depth).length ∧
        later.fields = out.fields.addAll (node.preorder depth)
  | .mk typeName flags properties children, done => by
    rw [lay] at done
    split at done
    · cases done
    · split at done
      · cases done
      · obtain ⟨middle, first, done⟩ := except_parts done
        obtain ⟨one, added⟩ := enter_fields first
        obtain ⟨count, others⟩ := layAll_fields done
        rw [added] at others
        rw [Outline.preorder, List.length_cons]
        exact ⟨by omega, others⟩

theorem layAll_fields {depth : Nat} {parent : UInt32} {out later : Flattening} :
    ∀ {nodes : List Outline}, layAll registry out depth parent nodes = .ok later →
      later.nodes.size = out.nodes.size + (Outline.preorderAll depth nodes).length ∧
        later.fields = out.fields.addAll (Outline.preorderAll depth nodes)
  | [], done => by
    cases done
    exact ⟨rfl, rfl⟩
  | node :: rest, done => by
    rw [layAll] at done
    obtain ⟨middle, first, done⟩ := except_parts done
    obtain ⟨one, added⟩ := lay_fields first
    obtain ⟨count, others⟩ := layAll_fields done
    rw [Outline.preorderAll, List.length_append, Fields.addAll_append, ← added]
    exact ⟨by omega, others⟩

end

-- What comes of writing some nodes: the first offence among them, or all of them written.
def Settles (registry : TypeRegistry) (nodes : List (Nat × Outline)) (result : Except CodecError Flattening) : Prop :=
  match nodes.findSome? (Outline.offence? registry) with
  | some error => result = .error error
  | none => ∃ later, result = .ok later

theorem Settles.bind {result : Except CodecError Flattening} {next : Flattening → Except CodecError Flattening}
    (first : Settles registry nodes result) (others : ∀ later, result = .ok later → Settles registry more (next later)) :
    Settles registry (nodes ++ more) (result >>= next) := by
  unfold Settles at first ⊢
  rw [List.findSome?_append]
  cases found : nodes.findSome? (Outline.offence? registry) with
  | some error =>
    rw [found] at first
    simp only at first
    rw [first]
    rfl
  | none =>
    rw [found] at first
    obtain ⟨later, ran⟩ := first
    rw [except_done ran, Option.none_or]
    exact others later ran

mutual

-- The depth is tested and the name is looked up before anything is written, the children follow
-- their parent and a later sibling comes last, so the first error is that of the first node in pre-order.
theorem lay_settles {depth next : Nat} {parent : Option UInt32} {out : Flattening} :
    ∀ {node : Outline}, Room out (node.preorder depth) →
      Settles registry (node.preorder depth) (lay registry out depth next parent node)
  | .mk typeName flags properties children, room => by
    rw [Outline.preorder] at room ⊢
    rw [lay, Settles, List.findSome?_cons]
    by_cases deep : maxTreeDepth < depth
    · rw [Outline.offence?, if_pos deep, if_pos deep]
    · rw [Outline.offence?, if_neg deep, if_neg deep, Outline.typeName]
      cases known : registry.idOf? typeName with
      | none => rw [if_pos rfl]
      | some typeId =>
        rw [if_neg (Option.some_ne_none _)]
        obtain ⟨middle, written, below⟩ := room.enter typeId flags (!children.isEmpty) next parent
        rw [Outline.properties] at written
        simp only
        rw [except_done written]
        exact layAll_settles below

theorem layAll_settles {depth : Nat} {parent : UInt32} {out : Flattening} :
    ∀ {nodes : List Outline}, Room out (Outline.preorderAll depth nodes) →
      Settles registry (Outline.preorderAll depth nodes) (layAll registry out depth parent nodes)
  | [], _ => ⟨out, rfl⟩
  | node :: rest, room => by
    rw [Outline.preorderAll] at room ⊢
    rw [layAll]
    refine (lay_settles room.first).bind fun later ran => layAll_settles ?_
    obtain ⟨count, added⟩ := lay_fields ran
    exact room.after count added

end

end Flattening

namespace Outline
variable {registry : TypeRegistry} {node : Outline} {depth : Nat}

-- Every node of a tree and every text that it enters can be counted in a word, and so can the bytes of all fields.
structure Fits (node : Outline) : Prop where
  nodes : node.size < 0x100000000
  blob : (Flattening.start.fields.addAll (node.preorder 0)).blob.size < 0x100000000
  texts : (Flattening.start.fields.addAll (node.preorder 0)).strings.size ≤ 0x100000000

theorem Fits.room (fits : node.Fits) : Flattening.Room .start (node.preorder 0) := by
  refine ⟨?_, fits.blob⟩
  change 0 + (node.preorder 0).length ≤ 0x100000000
  rw [preorder_length, Nat.zero_add]
  exact Nat.le_of_lt fits.nodes

theorem fits_bare (few : node.size < 0x100000000) (bare : node.Every fun inner => inner.properties = []) :
    node.Fits := by
  have nothing := Flattening.start.fields.addAll_bare ((every_preorder 0 node).mp bare)
  exact ⟨few, by rw [nothing]; decide, by rw [nothing]; decide⟩

theorem offence_none {entry : Nat × Outline} :
    offence? registry entry = none ↔ entry.1 ≤ maxTreeDepth ∧ registry.idOf? entry.2.typeName ≠ none := by
  unfold offence?
  split
  · rename_i deep
    exact iff_of_false (Option.some_ne_none _) fun fine => absurd fine.1 (Nat.not_le.mpr deep)
  · rename_i shallow
    split
    · rename_i unknown
      exact iff_of_false (Option.some_ne_none _) fun fine => fine.2 unknown
    · rename_i known
      exact iff_of_true rfl ⟨Nat.not_lt.mp shallow, known⟩

theorem offence_some {entry : Nat × Outline} {error : CodecError} :
    offence? registry entry = some error ↔ maxTreeDepth < entry.1 ∧ error = .tooDeep maxTreeDepth ∨
      entry.1 ≤ maxTreeDepth ∧ registry.idOf? entry.2.typeName = none ∧ error = .unknownNodeType entry.2.typeName := by
  unfold offence?
  split
  · rename_i deep
    simp [deep, Nat.not_le.mpr deep, eq_comm]
  · rename_i shallow
    have low := Nat.not_lt.mp shallow
    split
    · rename_i unknown
      simp [shallow, low, unknown, eq_comm]
    · rename_i known
      simp [shallow, known]

-- A tree that there is room for is flattened, or refused for the first node in pre-order that cannot be written.
theorem flattenWith_first (room : Flattening.Room .start (node.preorder 0)) :
    match (node.preorder 0).findSome? (offence? registry) with
    | some error => node.flattenWith registry = .error error
    | none => ∃ tree, node.flattenWith registry = .ok tree := by
  have settled : Flattening.Settles registry (node.preorder 0) (Flattening.lay registry .start 0 0 none node) :=
    Flattening.lay_settles room
  unfold Flattening.Settles at settled
  split at settled
  · rw [flattenWith_lay, settled]
    rfl
  · obtain ⟨out, ran⟩ := settled
    rw [flattenWith_lay, ran]
    exact ⟨_, rfl⟩

-- Every tree without such a node is flattened. Among several of them it is the first one that is named,
-- and of a node that lies too deep the name makes no difference.
theorem flattenWith_iff (room : Flattening.Room .start (node.preorder 0)) :
    ((∃ tree, node.flattenWith registry = .ok tree) ↔
      ∀ entry ∈ node.preorder 0, entry.1 ≤ maxTreeDepth ∧ registry.idOf? entry.2.typeName ≠ none) ∧
    ∀ error, node.flattenWith registry = .error error ↔
      ∃ before entry after, node.preorder 0 = before ++ entry :: after ∧
        (∀ other ∈ before, other.1 ≤ maxTreeDepth ∧ registry.idOf? other.2.typeName ≠ none) ∧
        (maxTreeDepth < entry.1 ∧ error = .tooDeep maxTreeDepth ∨
          entry.1 ≤ maxTreeDepth ∧ registry.idOf? entry.2.typeName = none ∧
            error = .unknownNodeType entry.2.typeName) := by
  have first := @flattenWith_first registry node room
  simp only [← offence_some, ← offence_none]
  rw [← List.findSome?_eq_none_iff]
  cases found : (node.preorder 0).findSome? (offence? registry) with
  | none =>
    rw [found] at first
    obtain ⟨tree, done⟩ := first
    refine ⟨iff_of_true ⟨tree, done⟩ rfl, fun error => iff_of_false (fun failed => ?_) ?_⟩
    · cases done.symm.trans failed
    · rintro ⟨before, entry, after, split, -, offends⟩
      have none := List.findSome?_eq_none_iff.mp found entry (by simp [split])
      cases none.symm.trans offends
  | some fault =>
    rw [found] at first
    refine ⟨iff_of_false ?_ (Option.some_ne_none _), fun error => ?_⟩
    · rintro ⟨tree, done⟩
      cases done.symm.trans first
    · rw [show node.flattenWith registry = .error fault from first, Except.error.injEq, ← Option.some.injEq, ← found,
        List.findSome?_eq_some_iff]
      constructor
      · rintro ⟨before, entry, after, split, offends, fine⟩
        exact ⟨before, entry, after, split, fine, offends⟩
      · rintro ⟨before, entry, after, split, fine, offends⟩
        exact ⟨before, entry, after, split, offends, fine⟩

def beneath (inner : Outline) : Nat → Outline
  | 0 => inner
  | levels + 1 => .mk "Expression" .none [] [beneath inner levels]

theorem beneath_size (inner : Outline) (levels : Nat) : (beneath inner levels).size = inner.size + levels := by
  induction levels with
  | zero => rfl
  | succ levels ih => exact congrArg (· + 1) ih

theorem beneath_bare {inner : Outline} (bare : inner.Every fun node => node.properties = []) (levels : Nat) :
    (beneath inner levels).Every fun node => node.properties = [] := by
  induction levels with
  | zero => exact bare
  | succ levels ih => exact ⟨rfl, ih, trivial⟩

theorem beneath_preorder (inner : Outline) (levels : Nat) : ∀ depth, ∃ above,
    (beneath inner levels).preorder depth = above ++ inner.preorder (depth + levels) ∧
      ∀ entry ∈ above, entry.1 < depth + levels ∧ entry.2.typeName = "Expression" := by
  induction levels with
  | zero => exact fun depth => ⟨[], rfl, List.forall_mem_nil _⟩
  | succ levels ih =>
    intro depth
    obtain ⟨above, split, each⟩ := ih (depth + 1)
    refine ⟨(depth, beneath inner (levels + 1)) :: above, ?_, ?_⟩
    · rw [beneath, preorder, preorderAll, preorderAll, split, List.append_nil, Nat.add_assoc, Nat.add_comm 1 levels]
      rfl
    · rw [List.forall_mem_cons]
      refine ⟨⟨by omega, rfl⟩, fun entry among => ?_⟩
      obtain ⟨low, named⟩ := each entry among
      exact ⟨by omega, named⟩

-- What lies too deep below the first child is named, and not the second child, whose kind is unknown.
theorem flattenWith_iff_deeper :
    flattenWith .builtin (.mk "Expression" .none [] [beneath (.mk "Null" .none [] []) 1024, .mk "Grid" .none [] []]) =
      .error (.tooDeep 1024) := by
  have bare := beneath_bare (show (Outline.mk "Null" .none [] []).Every fun node => node.properties = [] from
    ⟨rfl, trivial⟩) 1024
  have size := beneath_size (.mk "Null" .none [] []) 1024
  obtain ⟨above, split, each⟩ := beneath_preorder (.mk "Null" .none [] []) 1024 1
  generalize beneath (.mk "Null" .none [] []) 1024 = tower at *
  have few : (Outline.mk "Expression" .none [] [tower, .mk "Grid" .none [] []]).size < 0x100000000 := by
    change tower.size + (0 + 1 + 0) + 1 < 0x100000000
    rw [size]
    decide
  have room := (fits_bare few ⟨rfl, bare, ⟨rfl, trivial⟩, trivial⟩).room
  refine ((flattenWith_iff room).2 (.tooDeep 1024)).mpr
    ⟨(0, .mk "Expression" .none [] [tower, .mk "Grid" .none [] []]) :: above, (1025, .mk "Null" .none [] []),
      [(1, .mk "Grid" .none [] [])], ?_, ?_, .inl ⟨by decide, rfl⟩⟩
  · rw [preorder, preorderAll, split]
    simp [preorderAll, preorder]
  · rw [List.forall_mem_cons]
    refine ⟨⟨Nat.zero_le _, Option.some_ne_none _⟩, fun entry among => ?_⟩
    obtain ⟨low, named⟩ := each entry among
    rw [named]
    exact ⟨Nat.le_of_lt_succ low, by decide⟩

theorem flattenWith_named (fits : node.Fits)
    (named : ∀ entry ∈ node.preorder 0, entry.1 ≤ maxTreeDepth ∧ registry.idOf? entry.2.typeName ≠ none) :
    ∃ tree, node.flattenWith registry = .ok tree := by
  have first := @flattenWith_first registry node fits.room
  rwa [List.findSome?_eq_none_iff.mpr fun entry among => offence_none.mpr (named entry among)] at first

end Outline

theorem flattenWith_texts {registry : TypeRegistry} {node : Outline} {tree : FlatTree}
    (done : node.flattenWith registry = .ok tree) :
    tree.strings = (Flattening.start.fields.addAll (node.preorder 0)).strings := by
  obtain ⟨out, ran, rfl⟩ := flattenWith_parts done
  exact congrArg Flattening.Fields.strings (Flattening.lay_fields ran).2

theorem flattenWith_blob {registry : TypeRegistry} {node : Outline} {tree : FlatTree}
    (done : node.flattenWith registry = .ok tree) :
    tree.blob = (Flattening.start.fields.addAll (node.preorder 0)).blob := by
  obtain ⟨out, ran, rfl⟩ := flattenWith_parts done
  exact congrArg Flattening.Fields.blob (Flattening.lay_fields ran).2

end PluginBridge
