import PluginBridge.Proofs.Flat.Acceptance
namespace PluginBridge

namespace FlatTree
variable {tree : FlatTree} {registry other : TypeRegistry}

theorem eachFrom_congr {α : Type} {f g : Nat → NodeRecord → Except CodecError α} {records : List NodeRecord} {index : Nat}
    (each : ∀ k record, records[k]? = some record → f (index + k) record = g (index + k) record) :
    eachFrom f index records = eachFrom g index records := by
  induction records generalizing index with
  | nil => rfl
  | cons record rest ih =>
    have first := each 0 record rfl
    rw [Nat.add_zero] at first
    have others := @ih (index + 1) fun k record stands => by
      rw [Nat.add_assoc, Nat.add_comm 1 k]
      exact each (k + 1) record stands
    rw [eachFrom, eachFrom, first, others]

theorem unflattenWith_congr
    (named : ∀ record ∈ tree.nodes, tree.typeNameOf other record.typeId = tree.typeNameOf registry record.typeId) :
    tree.unflattenWith other = tree.unflattenWith registry := by
  have slots : eachFrom (tree.slotOf other) 0 tree.nodes.toList = eachFrom (tree.slotOf registry) 0 tree.nodes.toList := by
    refine eachFrom_congr fun k record stands => ?_
    have among : record ∈ tree.nodes := Array.mem_toList_iff.mp (List.mem_of_getElem? stands)
    rw [slotOf, named record among, slotOf]
  unfold unflattenWith
  rw [slots]

end FlatTree

namespace Flattening
variable {registry other : TypeRegistry} {out : Flattening} {types : Option (Array String)}

def Marked (out : Flattening) : Prop :=
  ∀ record ∈ out.nodes, out.usesExtensions = false → TypeRegistry.isExtension record.typeId = false

theorem lay_marked {depth next : Nat} {parent : Option UInt32} {later : Flattening} {node : Outline}
    (marked : Marked out) (done : lay registry out depth next parent node = .ok later) : Marked later := by
  refine lay_keeps Marked (fun marked done => ?_) marked done
  obtain ⟨_, rfl⟩ := enter_iff.mp done
  intro record among unused
  obtain ⟨before, builtin⟩ := Bool.or_eq_false_iff.mp unused
  rcases Array.mem_push.mp among with old | rfl
  · exact marked record old before
  · exact builtin

end Flattening

theorem flattenWith_marked {registry : TypeRegistry} {node : Outline} {tree : FlatTree}
    (done : node.flattenWith registry = .ok tree) (none : tree.types = none) :
    ∀ record ∈ tree.nodes, TypeRegistry.isExtension record.typeId = false := by
  obtain ⟨out, ran, rfl⟩ := flattenWith_parts done
  have unused : out.usesExtensions = false := by
    cases used : out.usesExtensions with
    | false => rfl
    | true => simp [Flattening.tree, Flattening.typesOf, used] at none
  have start : Flattening.Marked .start := fun record among => by
    cases Array.not_mem_empty record among
  exact fun record among => Flattening.lay_marked start ran record among unused

-- Another registry leaves the name of a type alone unless the table of types has a blank for it. It then
-- needs to have that name itself.
theorem typeNameOf_other {tree : FlatTree} {registry other : TypeRegistry} {name : String} {id : UInt16}
    (bounded : TypeRegistry.Bounded registry) (known : registry.idOf? name = some id)
    (own : tree.types = none ∧ TypeRegistry.isExtension id = false ∨ tree.types = some registry.typeTable) :
    tree.typeNameOf other id = .ok name ↔ (name = "" → other.nameOf? id = some "") := by
  unfold FlatTree.typeNameOf
  rcases own with ⟨none, builtin⟩ | table
  · obtain ⟨kind, found⟩ : ∃ kind, NodeKind.ofId? id = some kind := by
      rwa [TypeRegistry.isExtension, Option.isNone_eq_false_iff, Option.isSome_iff_exists] at builtin
    have same := TypeRegistry.nameOf_idOf bounded known
    have here : other.nameOf? id = some name := by
      rw [TypeRegistry.nameOf?, found] at same ⊢
      exact same
    simp only [none, Option.bind_none, Option.filter_none, here, true_iff]
    rintro rfl
    rfl
  · have listed := TypeRegistry.typeTable_idOf bounded known
    by_cases blank : name = ""
    · have skipped : Option.filter (fun text : String => text ≠ "") (some name) = none := by
        simp [Option.filter, blank]
      simp only [table, Option.bind_some, listed, skipped]
      cases found : other.nameOf? id with
      | none => simp [blank]
      | some text => simp [blank]
    · have kept : Option.filter (fun text : String => text ≠ "") (some name) = some name := by
        simp [Option.filter, blank]
      simp only [table, Option.bind_some, listed, kept, blank, false_implies]

namespace Outline
variable {slots others : List NodeSlot}

mutual

theorem assembled_slots : ∀ {node : Outline} {place : Nat} {parent : Option UInt32},
    node.assembled slots place parent = node.assembled others place parent →
      ∀ k, place ≤ k → k < place + node.size → slots[k]?.getD default = others[k]?.getD default
  | .mk _ _ _ children, place, parent, same, k, low, high => by
    rw [assembled, assembled, FlatNode.mk.injEq] at same
    obtain ⟨first, _, below⟩ := same
    rw [size] at high
    by_cases here : k = place
    · exact here ▸ first
    · exact assembledAll_slots below k (by omega) (by omega)

theorem assembledAll_slots : ∀ {nodes : List Outline} {place : Nat} {parent : UInt32},
    assembledAll slots place parent nodes = assembledAll others place parent nodes →
      ∀ k, place ≤ k → k < place + sizeAll nodes → slots[k]?.getD default = others[k]?.getD default
  | [], place, parent, _, k, low, high => by
    rw [sizeAll] at high
    omega
  | node :: rest, place, parent, same, k, low, high => by
    rw [assembledAll, assembledAll, List.cons.injEq] at same
    rw [sizeAll] at high
    by_cases early : k < place + node.size
    · exact assembled_slots same.1 k low early
    · exact assembledAll_slots same.2 k (by omega) (by omega)

end

end Outline

namespace Flattening
variable {registry other : TypeRegistry} {out : Flattening} {types : Option (Array String)} {place next : Nat}
  {parent : Option UInt32} {node : Outline} {slots : List NodeSlot} {lists : List (List UInt32)}

theorem Laid.named (collected : Collected other (out.tree types) slots lists)
    (laid : Laid registry out place next parent node) : ∃ slot id, slots[place]? = some slot ∧
      registry.idOf? node.typeName = some id ∧ (∃ record ∈ out.nodes, record.typeId = id) ∧
        (out.tree types).typeNameOf other id = .ok slot.typeName := by
  obtain ⟨⟨record, table, recorded⟩, _⟩ := laid.recorded
  rcases FlatTree.eachFrom_parts collected.slots place with ⟨none, _⟩ | ⟨found, slot, stands, there, read⟩
  · rw [Array.getElem?_toList] at none
    cases none.symm.trans recorded.stands
  · rw [Array.getElem?_toList] at stands
    obtain rfl : found = record := Option.some.inj (stands.symm.trans recorded.stands)
    exact ⟨slot, found.typeId, there, recorded.typed, ⟨found, Array.mem_of_getElem? recorded.stands, rfl⟩,
      (FlatTree.slotOf_parts read).2.2.2.1⟩

end Flattening

namespace Node
variable {registry other : TypeRegistry} {node : Node} {tree : FlatTree}

-- If a type of the tree has the empty name, the other registry has that name for its id as well.
def NamedAlike (registry other : TypeRegistry) (node : Node) : Prop :=
  ∀ inner, Within inner node → inner.typeName = "" → ∀ id, registry.idOf? "" = some id → other.nameOf? id = some ""

theorem flattened_own (flattened : node.flattenWith registry = .ok tree) {record : NodeRecord} (among : record ∈ tree.nodes) :
    tree.types = none ∧ TypeRegistry.isExtension record.typeId = false ∨ tree.types = some registry.typeTable := by
  have marked := flattenWith_marked flattened
  obtain ⟨out, rfl, _⟩ := flattenWith_laid flattened
  rcases Flattening.typesOf_cases registry out with none | table
  · exact .inl ⟨none, marked none record among⟩
  · exact .inr table

theorem flattened_typed (flattened : node.flattenWith registry = .ok tree) {record : NodeRecord} (among : record ∈ tree.nodes) :
    ∃ inner, Within inner node ∧ registry.idOf? inner.typeName = some record.typeId := by
  obtain ⟨out, rfl, count, _, laid⟩ := flattenWith_laid flattened
  have every : node.outline.Every fun outline => ∃ inner, Within inner node ∧ inner.outline = outline :=
    (outline_every node).mpr fun inner within => ⟨inner, within, rfl⟩
  obtain ⟨k, stands⟩ := List.mem_iff_getElem?.mp (Array.mem_toList_iff.mpr among)
  obtain ⟨stored, _, _, _, found, _, inner, within, rfl⟩ := laid.recordAt every count stands
  obtain ⟨⟨other, table, recorded⟩, _⟩ := found.recorded
  obtain rfl : other = record := Option.some.inj (recorded.stands.symm.trans stored)
  refine ⟨inner, within, ?_⟩
  have typed := recorded.typed
  cases inner
  exact typed

theorem unflattenWith_alike (reached : TypeRegistry.Reached registry) (flattened : node.flattenWith registry = .ok tree)
    (alike : node.NamedAlike registry other) : tree.unflattenWith other = tree.unflattenWith registry := by
  refine FlatTree.unflattenWith_congr fun record among => ?_
  obtain ⟨inner, within, known⟩ := flattened_typed flattened among
  have own := flattened_own flattened among
  rw [typeNameOf_idOf reached.bounded known (own.imp_left And.left)]
  refine (typeNameOf_other reached.bounded known own).mpr fun blank => ?_
  exact alike inner within blank _ (blank ▸ known)

theorem unflattenWith_distinct (reached : TypeRegistry.Reached registry) (flattened : node.flattenWith registry = .ok tree)
    {rebuilt : FlatNode} (done : tree.unflattenWith registry = .ok rebuilt)
    (same : tree.unflattenWith other = .ok rebuilt) : node.NamedAlike registry other := by
  have small := (unflattenWith_shallow flattened done).1
  have own := fun record => @flattened_own registry node tree flattened record
  obtain ⟨out, rfl, count, deep, laid⟩ := flattenWith_laid flattened
  have room : out.nodes.size < 0x100000000 := small
  have sound := laid.sound room count (Flattening.typesOf registry out)
  obtain ⟨slots, lists, _, collected, _⟩ := FlatTree.unflattenWith_parts done
  obtain ⟨others, othersLists, _, again, _⟩ := FlatTree.unflattenWith_parts same
  rw [unflattenWith_collected room sound collected laid count deep] at done
  rw [unflattenWith_collected room sound again laid count deep, ← done, Except.ok.injEq] at same
  have every : node.outline.Every fun outline =>
      outline.typeName = "" → ∀ id, registry.idOf? "" = some id → other.nameOf? id = some "" := by
    refine laid.every (fun place next parent inner found within => ?_) (by omega)
    intro blank id known
    have weight := inner.size_children
    obtain ⟨slot, typeId, here, typed, _, name⟩ := found.named collected
    obtain ⟨slot', typeId', there, typed', ⟨record, among, rfl⟩, name'⟩ := found.named again
    rw [blank] at typed typed'
    cases typed.symm.trans known
    cases typed'.symm.trans known
    -- Both trees are the same, so the node at this place has one name in them.
    have equal := Outline.assembled_slots same place (by omega) (by omega)
    rw [here, there, Option.getD_some, Option.getD_some] at equal
    have named := typeNameOf_idOf reached.bounded known ((own record among).imp_left And.left)
    rw [named, Except.ok.injEq] at name
    refine (typeNameOf_other reached.bounded known (own record among)).mp ?_ rfl
    rw [name', equal, ← name]
  exact fun inner within blank => by
    have parts := (outline_every node).mp every inner within
    cases inner
    exact parts blank

-- A flattened tree is rebuilt alike with every registry, except for one that has no empty name where the tree
-- has a type of that name. A detour over bytes changes nothing about either.
theorem unflattenWith_described (reached : TypeRegistry.Reached registry) (flattened : node.flattenWith registry = .ok tree)
    (other : TypeRegistry) :
    (node.NamedAlike registry other → tree.unflattenWith other = tree.unflattenWith registry) ∧
    (∀ rebuilt, tree.unflattenWith registry = .ok rebuilt → tree.unflattenWith other = .ok rebuilt →
      node.NamedAlike registry other) ∧
    ∀ bytes, tree.toBytes = .ok bytes → ∃ decoded, FlatTree.ofBytes bytes = .ok decoded ∧
      decoded.unflattenWith other = tree.unflattenWith other ∧
      decoded.unflattenWith registry = tree.unflattenWith registry := by
  refine ⟨unflattenWith_alike reached flattened, fun _ => unflattenWith_distinct reached flattened, fun bytes written => ?_⟩
  obtain ⟨encoding, rfl⟩ := FlatTree.toBytes_encoding written
  have decoded := encoding.ofBytes_append (flattenWith_sound flattened encoding.small) .empty
  rw [ByteArray.append_empty] at decoded
  exact ⟨tree, decoded, rfl, rfl⟩

theorem unflattenWith_nameless : ∃ tree,
    (plain (.extension "" [] [])).flattenWith (TypeRegistry.builtin.register "").2 = .ok tree ∧
      tree.unflattenWith .builtin ≠ tree.unflattenWith (TypeRegistry.builtin.register "").2 := by
  have known := TypeRegistry.register_idOf (TypeRegistry.register_builtin "" (by decide))
  have reached : TypeRegistry.Reached (TypeRegistry.builtin.register "").2 := .registered .builtin ""
  obtain ⟨tree, flattened⟩ := flattenWith_leaf (outline (plain (.extension "" [] []))) known rfl (by decide)
  have small : tree.nodes.size < 0x100000000 := by
    rw [flattenWith_size flattened]
    decide
  have shallow : Shallow (plain (.extension "" [] [])) :=
    Within.every (fun entry among => absurd among List.not_mem_nil) fun child among => absurd among List.not_mem_nil
  obtain ⟨rebuilt, done⟩ := unflattenWith_done reached flattened small shallow
  refine ⟨tree, flattened, fun same => ?_⟩
  have alike := unflattenWith_distinct reached flattened done (same.trans done)
  have none : TypeRegistry.builtin.nameOf? 0x100 = none := by decide
  have named := alike _ (.here _) rfl _ known
  rw [none] at named
  cases named

-- The first kind that a host defines has the same id in both registries, but the table of types comes first.
theorem unflattenWith_described_import : ∃ tree,
    (plain (.extension "Import" [] [])).flattenWith (TypeRegistry.builtin.register "Import").2 = .ok tree ∧
      tree.unflattenWith (TypeRegistry.builtin.register "Grid").2 =
        tree.unflattenWith (TypeRegistry.builtin.register "Import").2 := by
  have known := TypeRegistry.register_idOf (TypeRegistry.register_builtin "Import" (by decide))
  obtain ⟨tree, flattened⟩ := flattenWith_leaf (outline (plain (.extension "Import" [] []))) known rfl (by decide)
  refine ⟨tree, flattened, (unflattenWith_described (.registered .builtin "Import") flattened _).1 ?_⟩
  exact Within.every (fun nameless => absurd nameless (by decide)) fun child among => absurd among List.not_mem_nil

end Node
end PluginBridge
