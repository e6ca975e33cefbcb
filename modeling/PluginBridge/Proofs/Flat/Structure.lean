import PluginBridge.Proofs.Flat.Copies
namespace PluginBridge

namespace Outline

mutual

theorem preorder_below {k deep : Nat} {inner : Outline} : ∀ {depth : Nat} {node : Outline},
    (node.preorder depth)[k]? = some (deep, inner) →
      ∃ front back, node.preorder depth = front ++ inner.preorder deep ++ back ∧ front.length = k
  | depth, .mk typeName flags properties children, stands => by
    rw [preorder] at stands
    cases k with
    | zero =>
      cases stands
      exact ⟨[], [], by rw [List.nil_append, List.append_nil], rfl⟩
    | succ k =>
      obtain ⟨front, back, split, count⟩ := preorderAll_below (List.getElem?_cons_succ ▸ stands)
      refine ⟨(depth, .mk typeName flags properties children) :: front, back, ?_, by rw [List.length_cons, count]⟩
      rw [preorder, split, List.cons_append, List.cons_append]

theorem preorderAll_below {k deep : Nat} {inner : Outline} : ∀ {depth : Nat} {nodes : List Outline},
    (preorderAll depth nodes)[k]? = some (deep, inner) →
      ∃ front back, preorderAll depth nodes = front ++ inner.preorder deep ++ back ∧ front.length = k
  | _, [], stands => by cases stands
  | depth, node :: rest, stands => by
    rw [preorderAll] at stands ⊢
    by_cases early : k < (node.preorder depth).length
    · rw [List.getElem?_append_left early] at stands
      obtain ⟨front, back, split, count⟩ := preorder_below stands
      exact ⟨front, back ++ preorderAll depth rest, by rw [split, List.append_assoc], count⟩
    · have late := Nat.le_of_not_lt early
      rw [List.getElem?_append_right late] at stands
      obtain ⟨front, back, split, count⟩ := preorderAll_below stands
      refine ⟨node.preorder depth ++ front, back, ?_, ?_⟩
      · rw [split, List.append_assoc, List.append_assoc, List.append_assoc]
      · rw [List.length_append, count]
        omega

end

theorem positions_hold {whole front back : List (Nat × Outline)} {depth : Nat} {nodes : List Outline}
    (split : whole = front ++ preorderAll depth nodes ++ back) (small : whole.length ≤ 0x100000000) :
    List.Forall₂ (fun place child => whole[place.toNat]? = some (depth, child)) (positions front.length nodes) nodes := by
  induction nodes generalizing front with
  | nil => exact .nil
  | cons node rest ih =>
    have room : front.length < whole.length := by
      rw [split, preorderAll, preorder_children]
      simp
    refine .cons ?_ ?_
    · rw [toNat_word (by omega), split, preorderAll, preorder_children]
      simp
    · have next := @ih (front ++ node.preorder depth) (by rw [split, preorderAll]; simp)
      rwa [List.length_append, preorder_length] at next

theorem preorder_standing {node : Outline} {k : Nat} (depth : Nat) (within : k < node.size) :
    ∃ deep inner, (node.preorder depth)[k]? = some (deep, inner) := by
  rw [← preorder_length depth] at within
  exact ⟨_, _, List.getElem?_eq_getElem within⟩

theorem children_hold {depth k deep : Nat} {node inner : Outline} (small : node.size ≤ 0x100000000)
    (stands : (node.preorder depth)[k]? = some (deep, inner)) :
    List.Forall₂ (fun place child => (node.preorder depth)[place.toNat]? = some (deep + 1, child))
      (positions (k + 1) inner.children) inner.children := by
  obtain ⟨front, back, split, rfl⟩ := preorder_below stands
  rw [preorder_children deep inner] at split
  have first := @positions_hold (node.preorder depth) (front ++ [(deep, inner)]) back (deep + 1) inner.children
    (by rw [split]; simp) (by rwa [preorder_length])
  rwa [List.length_append, List.length_singleton] at first

end Outline

namespace Flattening
variable {registry : TypeRegistry} {out later : Flattening} {types : Option (Array String)}

mutual

theorem Laid.found {k deep : Nat} {inner : Outline} {place next : Nat} {parent : Option UInt32} :
    ∀ {depth : Nat} {node : Outline}, Laid registry out place next parent node →
      (node.preorder depth)[k]? = some (deep, inner) → ∃ next above, Laid registry out (place + k) next above inner ∧
        k + inner.size ≤ node.size ∧ (k = 0 ∧ above = parent ∨
          ∃ m high outer, (node.preorder depth)[m]? = some (high, outer) ∧ above = some (UInt32.ofNat (place + m)) ∧
            UInt32.ofNat (place + k) ∈ Outline.positions (place + m + 1) outer.children)
  | depth, .mk typeName flags properties children, laid, stands => by
    rw [Outline.preorder] at stands ⊢
    cases k with
    | zero =>
      cases stands
      exact ⟨next, parent, laid, Nat.le_of_eq (Nat.zero_add _), .inl ⟨rfl, rfl⟩⟩
    | succ k =>
      rw [List.getElem?_cons_succ] at stands
      obtain ⟨_, below⟩ := laid
      obtain ⟨next, above, here, room, whose⟩ := below.found stands
      rw [Nat.add_assoc, Nat.add_comm 1 k] at here whose
      refine ⟨next, above, here, by rw [Outline.size]; omega, .inr ?_⟩
      rcases whose with ⟨named, among⟩ | ⟨m, high, outer, stood, named, among⟩
      · exact ⟨0, depth, .mk typeName flags properties children, rfl, named, among⟩
      · rw [show place + 1 + m = place + (m + 1) by omega] at named among
        exact ⟨m + 1, high, outer, by rwa [List.getElem?_cons_succ], named, among⟩

theorem LaidAll.found {k deep : Nat} {inner : Outline} {place : Nat} {parent : UInt32} :
    ∀ {depth : Nat} {nodes : List Outline}, LaidAll registry out place parent nodes →
      (Outline.preorderAll depth nodes)[k]? = some (deep, inner) →
        ∃ next above, Laid registry out (place + k) next above inner ∧ k + inner.size ≤ Outline.sizeAll nodes ∧
          (above = some parent ∧ UInt32.ofNat (place + k) ∈ Outline.positions place nodes ∨
            ∃ m high outer, (Outline.preorderAll depth nodes)[m]? = some (high, outer) ∧
              above = some (UInt32.ofNat (place + m)) ∧
              UInt32.ofNat (place + k) ∈ Outline.positions (place + m + 1) outer.children)
  | _, [], _, stands => by cases stands
  | depth, node :: rest, ⟨first, others⟩, stands => by
    rw [Outline.preorderAll] at stands ⊢
    rw [Outline.sizeAll, Outline.positions]
    -- The node is in the first tree, or in the later ones, whose positions start behind it.
    by_cases early : k < (node.preorder depth).length
    · rw [List.getElem?_append_left early] at stands
      obtain ⟨next, above, here, room, whose⟩ := first.found stands
      refine ⟨next, above, here, by omega, ?_⟩
      rcases whose with ⟨rfl, named⟩ | ⟨m, high, outer, stood, named, among⟩
      · exact .inl ⟨named, List.mem_cons_self⟩
      · have within := (List.getElem?_eq_some_iff.mp stood).1
        exact .inr ⟨m, high, outer, by rwa [List.getElem?_append_left within], named, among⟩
    · have late := Nat.le_of_not_lt early
      rw [List.getElem?_append_right late] at stands
      obtain ⟨next, above, here, room, whose⟩ := others.found stands
      rw [Outline.preorder_length] at late here room whose
      rw [Nat.add_assoc, Nat.add_sub_cancel' late] at here whose
      refine ⟨next, above, here, by omega, ?_⟩
      rcases whose with ⟨named, among⟩ | ⟨m, high, outer, stood, named, among⟩
      · exact .inl ⟨named, List.mem_cons_of_mem _ among⟩
      · rw [Nat.add_assoc place] at named among
        refine .inr ⟨node.size + m, high, outer, ?_, named, among⟩
        rw [List.getElem?_append_right (by rw [Outline.preorder_length]; omega), Outline.preorder_length,
          Nat.add_sub_cancel_left, stood]

end

theorem LaidAll.member {place : Nat} {parent : UInt32} {nodes : List Outline}
    (laid : LaidAll registry out place parent nodes) (small : place + Outline.sizeAll nodes ≤ 0x100000000)
    {index : UInt32} (among : index ∈ Outline.positions place nodes) :
    ∃ next inner, Laid registry out index.toNat next (some parent) inner := by
  induction nodes generalizing place with
  | nil => cases among
  | cons node rest ih =>
    obtain ⟨first, others⟩ := laid
    have weight := node.size_children
    rw [Outline.sizeAll] at small
    rcases List.mem_cons.mp among with rfl | later
    · rw [toNat_word (by omega)]
      exact ⟨_, node, first⟩
    · exact ih others (by omega) later

section links
variable {node : Outline} (laid : Laid registry out 0 0 none node) (count : out.nodes.size = node.size)
  (small : out.nodes.size ≤ 0x100000000)
include laid count small

theorem Laid.childrenAt {k deep : Nat} {inner : Outline} (stands : (node.preorder 0)[k]? = some (deep, inner)) :
    (out.tree types).children (UInt32.ofNat k) = Outline.positions (k + 1) inner.children := by
  obtain ⟨next, above, here, room, -⟩ := laid.found stands
  rw [Nat.zero_add] at here
  exact here.children small (by omega)

theorem Laid.among_children {index other : UInt32} (named : (out.tree types).parent? index = some other) :
    index ∈ (out.tree types).children other := by
  unfold FlatTree.parent? at named
  split_ifs at named with root
  cases found : (out.tree types).node? index with
  | none => simp [found] at named
  | some record =>
    simp only [found] at named
    split_ifs at named with own
    cases named
    have within : index.toNat < out.nodes.size := (Array.getElem?_eq_some_iff.mp found).1
    obtain ⟨deep, inner, stands⟩ := Outline.preorder_standing 0 (count ▸ within)
    obtain ⟨next, above, here, -, whose⟩ := laid.found stands
    obtain ⟨⟨own, table, recorded⟩, -⟩ := here.recorded
    simp only [Nat.zero_add] at recorded whose
    have same : own = record := Option.some.inj (recorded.stands.symm.trans found)
    rcases whose with ⟨first, -⟩ | ⟨m, high, outer, stood, rfl, among⟩
    · exact absurd (UInt32.toNat_inj.mp first) root
    · rw [UInt32.ofNat_toNat] at among
      rw [← same, recorded.parent, Option.getD_some, laid.childrenAt count small stood]
      exact among

-- A child stands behind the node that it names, so it is neither the root nor its own parent.
theorem Laid.parent_named {index other : UInt32} (among : index ∈ (out.tree types).children other) :
    (out.tree types).parent? index = some other := by
  have within : other.toNat < out.nodes.size := by
    by_contra outside
    have none : (out.tree types).node? other = none := Array.getElem?_eq_none (Nat.not_lt.mp outside)
    rw [FlatTree.children, none, Option.bind_none] at among
    cases bound : (out.tree types).nodes.size <;> simp [bound, FlatTree.chain] at among
  obtain ⟨deep, inner, stands⟩ := Outline.preorder_standing 0 (count ▸ within)
  have listed := @Laid.childrenAt _ _ types _ laid count small _ _ _ stands
  rw [UInt32.ofNat_toNat] at listed
  rw [listed] at among
  obtain ⟨next, above, here, room, -⟩ := laid.found stands
  have weight := inner.size_children
  obtain ⟨low, high⟩ := Outline.positions_within (by omega) index among
  obtain ⟨-, below⟩ := here.recorded
  rw [Nat.zero_add] at below
  obtain ⟨next, child, placed⟩ := below.member (by omega) among
  obtain ⟨⟨record, table, recorded⟩, -⟩ := placed.recorded
  have found : (out.tree types).node? index = some record := recorded.stands
  have named : record.parent = other := by rw [recorded.parent, Option.getD_some, UInt32.ofNat_toNat]
  have root : index ≠ (out.tree types).root := by
    rintro rfl
    exact absurd low (Nat.not_succ_le_zero _)
  have own : other ≠ index := by
    rintro rfl
    omega
  rw [FlatTree.parent?, if_neg root]
  simp only [found]
  rw [named, if_neg own]

theorem Laid.parent_iff (index other : UInt32) :
    (out.tree types).parent? index = some other ↔ index ∈ (out.tree types).children other :=
  ⟨laid.among_children count small, laid.parent_named count small⟩

end links

-- The ranges of records stand one behind the other, the first one at `start`, and the last one ends at `stop`.
def Consecutive (start stop : Nat) : List NodeRecord → Prop
  | [] => start = stop
  | record :: rest =>
    record.blobOffset.toNat = start ∧ Consecutive (start + record.blobLength.toNat) stop rest

theorem Consecutive.add {start stop more : Nat} {records : List NodeRecord} {record : NodeRecord}
    (before : Consecutive start stop records) (offset : record.blobOffset.toNat = stop)
    (length : record.blobLength.toNat = more) : Consecutive start (stop + more) (records ++ [record]) := by
  induction records generalizing start with
  | nil =>
    cases before
    cases length
    exact ⟨offset, rfl⟩
  | cons first rest ih => exact ⟨before.1, ih before.2⟩

theorem lay_consecutive {depth next : Nat} {parent : Option UInt32} {node : Outline}
    (before : Consecutive 0 out.blob.size out.nodes.toList)
    (done : lay registry out depth next parent node = .ok later) :
    Consecutive 0 later.blob.size later.nodes.toList := by
  refine lay_keeps (fun out => Consecutive 0 out.blob.size out.nodes.toList) (fun before done => ?_) before done
  obtain ⟨⟨-, blob, fits⟩, rfl⟩ := enter_iff.mp done
  rw [Array.toList_push, ByteArray.size_append]
  exact before.add (toNat_word blob) (toNat_word fits)

end Flattening

namespace StringTable
variable {table : StringTable} {collected added : List String} {text : String}

-- A table that began with some texts has those that were entered behind them, each where it came first.
def Lists (table : StringTable) (collected added : List String) : Prop :=
  table.entries.toList = collected ++ (added.removeAll collected).eraseDups

theorem Lists.mem (lists : table.Lists collected added) : text ∈ table.entries.toList ↔ text ∈ collected ∨ text ∈ added := by
  rw [lists, List.mem_append, List.mem_eraseDups, List.removeAll, List.mem_filter]
  by_cases known : text ∈ collected <;> simp [known]

theorem Lists.intern (lists : table.Lists collected added) (text : String) :
    (table.intern text).2.Lists collected (added ++ [text]) := by
  unfold Lists
  rw [List.removeAll, List.filter_append, List.eraseDups_append, ← List.removeAll, ← List.append_assoc, ← lists]
  cases found : table.indexOf? text with
  | some index =>
    have seen : text ∈ collected ∨ text ∈ added := by
      rw [← lists.mem]
      by_contra absent
      cases found.symm.trans (indexOf?_none.mpr absent)
    rw [intern_known found]
    by_cases known : text ∈ collected
    · simp [known]
    · have later := seen.resolve_left known
      simp [List.removeAll, known, later]
  | none =>
    have fresh := indexOf?_none.mp found
    obtain ⟨new, unseen⟩ := not_or.mp (mt lists.mem.mpr fresh)
    rw [(intern_new fresh).2, Array.toList_push]
    simp [List.removeAll, new, unseen, List.eraseDups_cons]

theorem Lists.internAll (lists : table.Lists collected added) (more : List String) :
    (table.internAll more).Lists collected (added ++ more) := by
  induction more generalizing table added with
  | nil =>
    rw [List.append_nil]
    exact lists
  | cons text rest ih =>
    rw [← List.singleton_append, ← List.append_assoc]
    exact ih (lists.intern text)

theorem indexOf?_least {place : UInt32} (named : table.get? place = some text) : ∃ index,
    table.indexOf? text = some index ∧ table.get? index = some text ∧
      ∀ other, table.get? other = some text → index ≤ other := by
  have among : ∀ {other : UInt32}, table.get? other = some text → table.entries.toList[other.toNat]? = some text := by
    intro other there
    rw [Array.getElem?_toList]
    exact there
  cases found : table.entries.toList.idxOf? text with
  | none => exact absurd (List.mem_of_getElem? (among named)) (List.idxOf?_eq_none_iff.mp found)
  | some first =>
    obtain ⟨within, stands, least⟩ := List.idxOf?_eq_some_iff.mp found
    have before : ∀ {other : UInt32}, table.get? other = some text → first ≤ other.toNat := by
      intro other there
      obtain ⟨inside, same⟩ := List.getElem?_eq_some_iff.mp (among there)
      exact Nat.le_of_not_lt fun early => least other.toNat early same
    have number : (UInt32.ofNat first).toNat = first :=
      UInt32.toNat_ofNat_of_lt' (Nat.lt_of_le_of_lt (before named) place.toNat_lt)
    refine ⟨UInt32.ofNat first, by rw [indexOf?_eq, found, Option.map_some], ?_, fun other there => ?_⟩
    · rw [get?, number, ← Array.getElem?_toList, List.getElem?_eq_getElem within, stands]
    · rw [UInt32.le_iff_toNat_le, number]
      exact before there

theorem Extends.get? {earlier later : StringTable} {index : UInt32} (grown : Extends earlier later)
    (named : earlier.get? index = some text) : later.get? index = some text := by
  obtain ⟨more, same⟩ := grown
  rw [StringTable.get?, ← Array.getElem?_toList] at named ⊢
  rw [same, List.getElem?_append_left (List.getElem?_eq_some_iff.mp named).1, named]

-- In a table that began with some texts and took up others the first ones stand as they came, with their repetitions,
-- and of the others each one that was new once, where it came. In any table a text is found at its first index, and is
-- not found only if it is not there. To take up a text that is there changes nothing, and no index ever comes to mean
-- another text.
theorem indices_fixed (collected added : List String) (table : StringTable) :
    ((ofList collected).internAll added).entries.toList = collected ++ (added.removeAll collected).eraseDups ∧
    (∀ text, table.indexOf? text = none ↔ text ∉ table.entries.toList) ∧
    (∀ text place, table.get? place = some text → ∃ index, table.indexOf? text = some index ∧
      table.get? index = some text ∧ ∀ other, table.get? other = some text → index ≤ other) ∧
    (∀ text index, table.indexOf? text = some index → table.intern text = (index, table)) ∧
    (∀ text, text ∉ table.entries.toList → (table.intern text).1 = UInt32.ofNat table.size ∧
      (table.intern text).2.entries = table.entries.push text) ∧
    (∀ more text index, table.get? index = some text → (table.internAll more).get? index = some text) ∧
    ∀ more text, ((table.intern text).2.internAll more).indexOf? text = some (table.intern text).1 := by
  have begun : (ofList collected).Lists collected [] := (List.append_nil collected).symm
  refine ⟨begun.internAll added, fun text => indexOf?_none, fun text place => indexOf?_least,
    fun text index => intern_known, fun text => intern_new, fun more text index => ?_, fun more text => ?_⟩
  · exact (internAll_extends table more).get?
  · exact (internAll_extends _ more).place (intern_place table text)

end StringTable

theorem flattenWith_valid {registry : TypeRegistry} {node : Outline} {tree : FlatTree}
    (done : node.flattenWith registry = .ok tree) :
    tree.nodes.size < 0x100000000 ∧ tree.validate = .ok () ∨
      tree.nodes.size = 0x100000000 ∧ tree.validate = .error (.invalidLink 0 .child 1) := by
  rcases Nat.lt_or_eq_of_le (flattenWith_nodes done) with few | full
  · exact .inl ⟨few, FlatTree.validate_iff.mpr (flattenWith_sound done few)⟩
  · -- The count of 2 ^ 32 nodes is no word and wraps to none, so the first link is refused.
    refine .inr ⟨full, ?_⟩
    have none : tree.nodeCount = 0 := by
      rw [FlatTree.nodeCount, full]
      rfl
    have size := flattenWith_size done
    obtain ⟨out, rfl, -, -, laid⟩ := flattenWith_laid done
    obtain ⟨⟨record, table, recorded⟩, -⟩ := laid.recorded
    have some : node.children ≠ [] := by
      intro leaf
      rw [node.size_children, leaf, full] at size
      cases size
    have child : record.child = 1 := by
      rw [recorded.child, if_neg (by simpa using some)]
      rfl
    obtain ⟨rest, listed⟩ : ∃ rest, out.nodes.toList = record :: rest := by
      have first := recorded.stands
      rw [← Array.getElem?_toList] at first
      cases all : out.nodes.toList with
      | nil =>
        rw [all] at first
        cases first
      | cons head rest =>
        rw [all] at first
        cases first
        exact ⟨rest, rfl⟩
    have refused : (out.tree (Flattening.typesOf registry out)).validateRecord 0 record =
        .error (.invalidLink 0 .child 1) := by
      simp only [FlatTree.validateRecord, none, child]
      rfl
    rw [FlatTree.validate, if_neg (by rw [none]; simp)]
    change (out.tree _).validateFrom 0 out.nodes.toList = _
    rw [listed, FlatTree.validateFrom]
    exact congrArg (· >>= _) refused

-- A flattened tree as its tables show it: one record for each node in pre-order, links that say which nodes
-- are whose children, ranges that divide the blob among the records, and the texts in the order in which
-- they come first.
theorem flattenWith_structure {registry : TypeRegistry} {node : Outline} {tree : FlatTree}
    (done : node.flattenWith registry = .ok tree) :
    (tree.nodes.size < 0x100000000 ∧ tree.validate = .ok () ∨
      tree.nodes.size = 0x100000000 ∧ tree.validate = .error (.invalidLink 0 .child 1)) ∧
    tree.root = 0 ∧ tree.nodes.size = (node.preorder 0).length ∧
    (∀ k depth inner, (node.preorder 0)[k]? = some (depth, inner) →
      (∃ record table, tree.nodes[k]? = some record ∧ registry.idOf? inner.typeName = some record.typeId ∧
        record.flags = inner.flags ∧ tree.blobSlice record = .ok (Blob.encode table inner.properties).1 ∧
        StringTable.Extends (Blob.encode table inner.properties).2 tree.strings) ∧
      tree.children (UInt32.ofNat k) = Outline.positions (k + 1) inner.children ∧
      List.Forall₂ (fun place child => (node.preorder 0)[place.toNat]? = some (depth + 1, child))
        (tree.children (UInt32.ofNat k)) inner.children) ∧
    (∀ index other, tree.parent? index = some other ↔ index ∈ tree.children other) ∧
    Flattening.Consecutive 0 tree.blob.size tree.nodes.toList ∧
    tree.strings.entries.toList = node.texts.eraseDups ∧ tree.strings.entries.toList.Nodup := by
  have valid := flattenWith_valid done
  have few := flattenWith_nodes done
  have texts := flattenWith_texts done
  have size := flattenWith_size done
  have ranges : Flattening.Consecutive 0 tree.blob.size tree.nodes.toList := by
    have begun : Flattening.Consecutive 0 Flattening.start.blob.size Flattening.start.nodes.toList := rfl
    obtain ⟨out, ran, rfl⟩ := flattenWith_parts done
    exact Flattening.lay_consecutive begun ran
  obtain ⟨out, rfl, count, -, laid⟩ := flattenWith_laid done
  refine ⟨valid, rfl, by rw [size, Outline.preorder_length], fun k depth inner stands => ?_,
    laid.parent_iff count few, ranges, ?_, ?_⟩
  · obtain ⟨next, above, here, -, -⟩ := laid.found stands
    rw [Nat.zero_add] at here
    obtain ⟨⟨record, table, recorded⟩, -⟩ := here.recorded
    have children : (out.tree (Flattening.typesOf registry out)).children (UInt32.ofNat k) =
      Outline.positions (k + 1) inner.children := laid.childrenAt count few stands
    refine ⟨⟨record, table, recorded.stands, recorded.typed, recorded.flagged, recorded.slice _, recorded.texts⟩,
      children, ?_⟩
    rw [children]
    exact Outline.children_hold (size ▸ few) stands
  · rw [texts]
    have begun : Flattening.start.fields.strings.Lists [] [] := rfl
    have lists := begun.internAll node.texts
    rw [List.nil_append, StringTable.Lists, List.removeAll_nil, List.nil_append] at lists
    rw [Flattening.Fields.addAll_strings]
    exact lists
  · rw [texts]
    have begun : Flattening.start.fields.strings.Within Flattening.start.fields.strings := .empty _
    exact (Flattening.Fields.addAll_within begun _).distinct

-- Two keywords of one text, the second inside of a list between the first and another one.
theorem flattenWith_structure_nested : ∃ tree,
    (Node.plain (.expression [.plain (.keyword "b"), .plain (.expression [.plain (.keyword "b")]),
      .plain (.keyword "a")])).outline.flattenWith .builtin = .ok tree ∧ tree.validate = .ok () ∧
      tree.children 0 = [1, 2, 4] ∧ tree.parent? 3 = some 2 ∧ tree.strings.entries.toList = ["b", "a"] := by
  obtain ⟨tree, done, -⟩ := except_checked (show ((Node.plain (.expression [.plain (.keyword "b"),
    .plain (.expression [.plain (.keyword "b")]), .plain (.keyword "a")])).outline.flattenWith .builtin).toOption.any
      (fun _ => true) = true by decide +kernel)
  obtain ⟨valid, -, size, each, parents, -, texts, -⟩ := flattenWith_structure done
  have inner : tree.children 2 = [3] := (each 2 1 _ rfl).2.1
  have few : tree.nodes.size ≠ 0x100000000 := by
    rw [size]
    decide
  refine ⟨tree, done, (valid.resolve_right fun full => few full.1).2, (each 0 0 _ rfl).2.1, (parents 3 2).mpr ?_, ?_⟩
  · rw [inner]
    exact List.mem_singleton_self 3
  · rw [texts]
    decide

end PluginBridge
