import PluginBridge.Proofs.Flat.Layout
namespace PluginBridge

theorem modify_comm {α : Type} (items : Array α) {i j : Nat} (apart : i ≠ j) (f g : α → α) :
    (items.modify i f).modify j g = (items.modify j g).modify i f := by
  refine Array.ext_getElem? fun k => ?_
  simp only [Array.getElem?_modify]
  by_cases first : i = k
  · have other : ¬ j = k := fun same => apart (first.trans same.symm)
    simp [first, other]
  · simp [first]

theorem modify_push {α : Type} (items : Array α) (last : α) {i : Nat} (f : α → α) (inside : i < items.size) :
    (items.modify i f).push last = (items.push last).modify i f := by
  refine Array.ext_getElem? fun k => ?_
  simp only [Array.getElem?_modify, Array.getElem?_push, Array.size_modify]
  by_cases new : k = items.size
  · have other : ¬ i = k := by omega
    rw [if_pos new, if_neg other, if_pos new]
  · rw [if_neg new, if_neg new]

theorem push_modify {α : Type} (items : Array α) (last : α) (f : α → α) :
    (items.push last).modify items.size f = items.push (f last) := by
  refine Array.ext_getElem? fun k => ?_
  simp only [Array.getElem?_modify, Array.getElem?_push]
  by_cases new : k = items.size
  · simp [new]
  · rw [if_neg new, if_neg new, if_neg (Ne.symm new)]

namespace Flattening
variable {registry : TypeRegistry} {out later : Flattening} {place depth next : Nat} {parent : Option UInt32}
  {change : NodeRecord → NodeRecord} {typeId : UInt16} {flags : NodeFlags} {properties : List (String × Property)}
  {hasChildren : Bool}

@[simp] theorem patch_size (out : Flattening) (place : Nat) (change : NodeRecord → NodeRecord) :
    (out.patch place change).nodes.size = out.nodes.size := Array.size_modify

@[simp] theorem patch_strings (out : Flattening) (place : Nat) (change : NodeRecord → NodeRecord) :
    (out.patch place change).strings = out.strings := rfl

@[simp] theorem patch_room (out : Flattening) (place : Nat) (change : NodeRecord → NodeRecord) (encoded : ByteArray) :
    (out.patch place change).room encoded = out.room encoded := by
  rw [room, patch_size]
  rfl

theorem patch_comm {other : Nat} (apart : place ≠ other) (out : Flattening) (change more : NodeRecord → NodeRecord) :
    (out.patch place change).patch other more = (out.patch other more).patch place change := by
  simp only [patch, modify_comm out.nodes apart]

theorem enter_size (done : out.enter typeId flags properties hasChildren next parent = .ok later) :
    later.nodes.size = out.nodes.size + 1 := by
  obtain ⟨-, rfl⟩ := enter_iff.mp done
  exact Array.size_push _

theorem enter_patch (inside : place < out.nodes.size) :
    (out.patch place change).enter typeId flags properties hasChildren next parent =
      (out.enter typeId flags properties hasChildren next parent).map (·.patch place change) := by
  have same : ∀ words, (out.patch place change).entered typeId flags properties hasChildren next parent words =
      (out.entered typeId flags properties hasChildren next parent words).patch place change := by
    intro words
    simp only [entered, patch, modify_push out.nodes _ change inside]
  rw [enter, enter, except_map_map, patch_strings, patch_room]
  exact congrArg (Except.map · _) (funext same)

theorem enter_next : out.enter typeId flags properties hasChildren next parent =
    (out.enter typeId flags properties hasChildren 0 parent).map
      (·.patch out.nodes.size fun record => { record with next := UInt32.ofNat next }) := by
  have same : ∀ words, out.entered typeId flags properties hasChildren next parent words =
      (out.entered typeId flags properties hasChildren 0 parent words).patch out.nodes.size
        fun record => { record with next := UInt32.ofNat next } := by
    intro words
    simp only [entered, patch, push_modify]
  rw [enter, enter, except_map_map]
  exact congrArg (Except.map · _) (funext same)

theorem enter_child : out.enter typeId flags properties true next parent =
    (out.enter typeId flags properties false next parent).map
      (·.patch out.nodes.size fun record => { record with child := UInt32.ofNat (out.nodes.size + 1) }) := by
  rw [enter, enter, except_map_map]
  cases found : out.room (Blob.encode out.strings properties).1 with
  | error e => rfl
  | ok words =>
    obtain ⟨-, rfl⟩ := room_iff.mp found
    simp only [Except.map, entered, patch, push_modify]
    rw [UInt32.ofNat_add]
    rfl

theorem append_enter : out.append typeId flags properties parent =
    (out.enter typeId flags properties false 0 parent).map fun later => (UInt32.ofNat out.nodes.size, later) := by
  rw [append, enter, except_map_map]
  cases found : out.room (Blob.encode out.strings properties).1 with
  | error e => exact congrArg (· >>= _) found
  | ok words =>
    obtain ⟨-, rfl⟩ := room_iff.mp found
    exact congrArg (· >>= _) found

mutual

theorem lay_patch {place depth next : Nat} {parent : Option UInt32} {out : Flattening} {change : NodeRecord → NodeRecord}
    (inside : place < out.nodes.size) : ∀ node : Outline, lay registry (out.patch place change) depth next parent node =
      (lay registry out depth next parent node).map (·.patch place change)
  | .mk typeName flags properties children => by
    rw [lay, lay, patch_size]
    split
    · rfl
    · cases registry.idOf? typeName with
      | none => rfl
      | some typeId =>
        simp only [enter_patch inside]
        rw [except_map_bind, except_bind_map]
        cases written : out.enter typeId flags properties (!children.isEmpty) next parent with
        | error e => rfl
        | ok middle =>
          have size := enter_size written
          exact layAll_patch (by omega) children

theorem layAll_patch {place depth : Nat} {parent : UInt32} {out : Flattening} {change : NodeRecord → NodeRecord}
    (inside : place < out.nodes.size) : ∀ nodes : List Outline, layAll registry (out.patch place change) depth parent nodes =
      (layAll registry out depth parent nodes).map (·.patch place change)
  | [] => rfl
  | node :: rest => by
    rw [layAll, layAll, patch_size]
    simp only [lay_patch inside node]
    rw [except_map_bind, except_bind_map]
    cases written : lay registry out depth (if rest.isEmpty then 0 else out.nodes.size + node.size) (some parent) node with
    | error e => rfl
    | ok middle =>
      obtain ⟨-, size, -⟩ := lay_laid written
      exact layAll_patch (by omega) rest

end

theorem lay_next (node : Outline) : lay registry out depth next parent node =
    (lay registry out depth 0 parent node).map
      (·.patch out.nodes.size fun record => { record with next := UInt32.ofNat next }) := by
  obtain ⟨typeName, flags, properties, children⟩ := node
  rw [lay, lay]
  split
  · rfl
  · cases registry.idOf? typeName with
    | none => rfl
    | some typeId =>
      simp only
      rw [enter_next, except_map_bind, except_bind_map]
      cases written : out.enter typeId flags properties (!children.isEmpty) 0 parent with
      | error e => rfl
      | ok middle =>
        have size := enter_size written
        exact layAll_patch (by omega) children

-- Where the link to the next of some siblings goes: into the record of their parent, or into that of the sibling
-- before them. That record has been written.
def Awaited (out : Flattening) (parent : UInt32) (previous : Option UInt32) : Prop :=
  (previous.getD parent).toNat < out.nodes.size

theorem link_patch (parent : UInt32) (previous : Option UInt32) (index : UInt32) : ∃ change, ∀ out : Flattening,
    out.link parent previous index = out.patch (previous.getD parent).toNat change := by
  cases previous with
  | none => exact ⟨_, fun _ => rfl⟩
  | some sibling => exact ⟨_, fun _ => rfl⟩

theorem lay_room {node : Outline} (done : lay registry out depth next parent node = .ok later) :
    out.nodes.size < 0x100000000 := by
  obtain ⟨typeName, flags, properties, children⟩ := node
  rw [lay] at done
  split at done
  · cases done
  · split at done
    · cases done
    · obtain ⟨middle, written, -⟩ := except_parts done
      exact (enter_iff.mp written).1.1

mutual

theorem push_lay {depth : Nat} {parent : Option UInt32} {out : Flattening} : ∀ node : Outline,
    push registry out depth parent node =
      (lay registry out depth 0 parent node).map fun later => (UInt32.ofNat out.nodes.size, later)
  | .mk typeName flags properties children => by
    rw [push, lay]
    split
    · rfl
    · cases registry.idOf? typeName with
      | none => rfl
      | some typeId =>
        simp only
        rw [append_enter, except_map_bind]
        cases children with
        | nil =>
          rw [show (!([] : List Outline).isEmpty) = false from rfl]
          cases out.enter typeId flags properties false 0 parent <;> rfl
        | cons child rest =>
          rw [show (!(child :: rest).isEmpty) = true from rfl, enter_child, except_map_bind, except_bind_map]
          cases written : out.enter typeId flags properties false 0 parent with
          | error e => rfl
          | ok middle =>
            have size := enter_size written
            have place := toNat_word (enter_iff.mp written).1.1
            have awaited : Awaited middle (UInt32.ofNat out.nodes.size) none := by
              rw [Awaited, Option.getD_none, place]
              omega
            change (pushAll registry middle (depth + 1) (UInt32.ofNat out.nodes.size) none (child :: rest) >>= fun later =>
              pure (UInt32.ofNat out.nodes.size, later)) = (layAll registry (middle.patch out.nodes.size _) (depth + 1)
                (UInt32.ofNat out.nodes.size) (child :: rest)).map _
            rw [pushAll_lay awaited, layAll_patch (by omega), except_map_bind, except_map_map]
            cases layAll registry middle (depth + 1) (UInt32.ofNat out.nodes.size) (child :: rest) with
            | error e => rfl
            | ok later =>
              have linked : later.link (UInt32.ofNat out.nodes.size) none (UInt32.ofNat middle.nodes.size) =
                  later.patch out.nodes.size fun record =>
                    { record with child := UInt32.ofNat (out.nodes.size + 1) } := by
                rw [link, place, size]
              exact congrArg (fun later => Except.ok (UInt32.ofNat out.nodes.size, later)) linked

theorem pushAll_lay {depth : Nat} {parent : UInt32} {previous : Option UInt32} {out : Flattening}
    (awaited : Awaited out parent previous) : ∀ nodes : List Outline,
    pushAll registry out depth parent previous nodes = (layAll registry out depth parent nodes).map fun later =>
      if nodes.isEmpty then later else later.link parent previous (UInt32.ofNat out.nodes.size)
  | [] => rfl
  | [node] => by
    rw [pushAll, push_lay node, except_map_bind, layAll, except_bind_map]
    rw [show (if [].isEmpty then 0 else out.nodes.size + node.size) = 0 from rfl]
    cases lay registry out depth 0 (some parent) node <;> rfl
  | node :: other :: rest => by
    have ahead : (if (other :: rest).isEmpty then 0 else out.nodes.size + node.size) = out.nodes.size + node.size := rfl
    rw [pushAll, push_lay node, except_map_bind, layAll, except_bind_map, ahead,
      @lay_next registry out depth (out.nodes.size + node.size) (some parent) node, except_map_bind]
    cases written : lay registry out depth 0 (some parent) node with
    | error e => rfl
    | ok first =>
      obtain ⟨-, size, -⟩ := lay_laid written
      have place := toNat_word (lay_room written)
      have positive := node.size_children
      obtain ⟨change, links⟩ := link_patch parent previous (UInt32.ofNat out.nodes.size)
      have awaits : Awaited (first.link parent previous (UInt32.ofNat out.nodes.size)) parent
          (some (UInt32.ofNat out.nodes.size)) := by
        rw [Awaited, Option.getD_some, place, links, patch_size]
        omega
      have before : (previous.getD parent).toNat < out.nodes.size := awaited
      -- The sibling before is patched before the rest is written, and the node itself behind that.
      change pushAll registry (first.link parent previous (UInt32.ofNat out.nodes.size)) depth parent
          (some (UInt32.ofNat out.nodes.size)) (other :: rest) =
        (layAll registry (first.patch out.nodes.size _) depth parent (other :: rest)).map _
      rw [pushAll_lay awaits, links, layAll_patch (by omega), layAll_patch (by omega), except_map_map, except_map_map]
      cases layAll registry first depth parent (other :: rest) with
      | error e => rfl
      | ok later =>
        have linked : ((later.patch (previous.getD parent).toNat change).link parent (some (UInt32.ofNat out.nodes.size))
            (UInt32.ofNat (first.patch (previous.getD parent).toNat change).nodes.size)) = (later.patch out.nodes.size fun record =>
              { record with next := UInt32.ofNat (out.nodes.size + node.size) }).link parent previous
                (UInt32.ofNat out.nodes.size) := by
          rw [link, place, patch_size, size, links, patch_comm (by omega)]
        exact congrArg Except.ok linked

end

end Flattening

namespace Flattening

def tree (out : Flattening) (types : Option (Array String)) : FlatTree :=
  ⟨0, out.nodes, out.strings, types, out.blob⟩

def typesOf (registry : TypeRegistry) (out : Flattening) : Option (Array String) :=
  if out.usesExtensions then some registry.typeTable else none

theorem typesOf_cases (registry : TypeRegistry) (out : Flattening) :
    typesOf registry out = none ∨ typesOf registry out = some registry.typeTable := by
  unfold typesOf
  split
  · exact .inr rfl
  · exact .inl rfl

end Flattening

theorem flattenWith_lay (registry : TypeRegistry) (node : Outline) : node.flattenWith registry =
    (Flattening.lay registry .start 0 0 none node).map fun out => out.tree (Flattening.typesOf registry out) := by
  rw [Outline.flattenWith, Flattening.push_lay, except_map_bind]
  cases written : Flattening.lay registry .start 0 0 none node with
  | error e => rfl
  | ok out =>
    obtain ⟨-, size, -⟩ := Flattening.lay_laid written
    have some : 0 < out.nodes.size := by
      rw [size, node.size_children]
      omega
    exact if_pos some

theorem flattenWith_parts {registry : TypeRegistry} {node : Outline} {tree : FlatTree}
    (done : node.flattenWith registry = .ok tree) : ∃ out, Flattening.lay registry .start 0 0 none node = .ok out ∧
      tree = out.tree (Flattening.typesOf registry out) := by
  rw [flattenWith_lay] at done
  cases written : Flattening.lay registry .start 0 0 none node with
  | error e =>
    rw [written] at done
    cases done
  | ok out =>
    rw [written] at done
    cases done
    exact ⟨out, rfl, rfl⟩

theorem flattenWith_laid {registry : TypeRegistry} {node : Outline} {tree : FlatTree}
    (done : node.flattenWith registry = .ok tree) :
    ∃ out : Flattening, tree = out.tree (Flattening.typesOf registry out) ∧
      out.nodes.size = node.size ∧ node.height ≤ maxTreeDepth + 1 ∧
        Flattening.Laid registry out 0 0 none node := by
  obtain ⟨out, ran, rfl⟩ := flattenWith_parts done
  obtain ⟨_, count, deep, laid⟩ := Flattening.lay_laid ran
  refine ⟨out, rfl, ?_, by omega, laid⟩
  rw [count]
  exact Nat.zero_add _

theorem flattenWith_size {registry : TypeRegistry} {node : Outline} {tree : FlatTree}
    (done : node.flattenWith registry = .ok tree) : tree.nodes.size = node.size := by
  obtain ⟨out, rfl, count, _⟩ := flattenWith_laid done
  exact count

theorem flattenWith_leaf {registry : TypeRegistry} (node : Outline) {id : UInt16}
    (known : registry.idOf? node.typeName = some id) (leaf : node.children = [])
    (fits : (Blob.encode .empty node.properties).1.size < 0x100000000) :
    ∃ tree, node.flattenWith registry = .ok tree := by
  obtain ⟨typeName, flags, properties, children⟩ := node
  obtain rfl : children = [] := leaf
  have named : registry.idOf? typeName = some id := known
  obtain ⟨out, written⟩ : ∃ out, Flattening.start.enter id flags properties false 0 none = .ok out :=
    ⟨_, Flattening.enter_iff.mpr ⟨⟨by decide, by decide, fits⟩, rfl⟩⟩
  have pushed : Flattening.lay registry .start 0 0 none (.mk typeName flags properties []) = .ok out := by
    rw [Flattening.lay, if_neg (by decide)]
    simp only [named]
    exact (except_done written).trans rfl
  rw [flattenWith_lay, pushed]
  exact ⟨_, rfl⟩

end PluginBridge
