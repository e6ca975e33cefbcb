import PluginBridge.Proofs.Call.FlatRoute
namespace PluginBridge

namespace ResultNode
variable {name key : String} {fields : Members Json} {slots : List (String × ChildSlot)}

mutual

def inOrder : ResultNode → ResultNode
  | .mk name fields slots => .mk name fields (Members.ofList (slotsInOrder slots))

def slotsInOrder : List (String × ChildSlot) → List (String × ChildSlot)
  | [] => []
  | (key, slot) :: rest => (key, slotInOrder slot) :: slotsInOrder rest

def slotInOrder : ChildSlot → ChildSlot
  | .one node => .one node.inOrder
  | .many nodes => .many (allInOrder nodes)

def allInOrder : List ResultNode → List ResultNode
  | [] => []
  | node :: rest => node.inOrder :: allInOrder rest

end

-- What the structural form can tell apart: no two members under one name, no field that looks
-- like a child, and no empty list of children where it looks like a scalar.
structure Distinct (name : String) (fields : Members Json) (slots : List (String × ChildSlot)) :
    Prop where
  sorted : fields.Ascending
  apart : (typeKey :: (fields.map Prod.fst ++ slots.map Prod.fst)).Nodup
  scalar : ∀ entry ∈ fields, memberRole name entry.1 entry.2 = .field
  listed : ∀ key, (key, ChildSlot.many []) ∈ slots → isChildField name key = true

mutual

def Regular : ResultNode → Prop
  | .mk name fields slots => Distinct name fields slots ∧ SlotsRegular slots

def SlotsRegular : List (String × ChildSlot) → Prop
  | [] => True
  | (_, slot) :: rest => SlotRegular slot ∧ SlotsRegular rest

def SlotRegular : ChildSlot → Prop
  | .one node => node.Regular
  | .many nodes => AllRegular nodes

def AllRegular : List ResultNode → Prop
  | [] => True
  | node :: rest => node.Regular ∧ AllRegular rest

end

def slotOf? (name : String) (member : String × Json) : Option (String × ChildSlot) :=
  match memberRole name member.1 member.2, member.2 with
  | .child, value => some (member.1, .one (ofJson value))
  | .children, .array items => some (member.1, .many (allOfJson items))
  | _, _ => none

theorem slotsOf_eq_filterMap (name : String) (members : List (String × Json)) :
    slotsOf name members = members.filterMap (slotOf? name) := by
  induction members with
  | nil => rfl
  | cons member rest ih =>
    obtain ⟨key, value⟩ := member
    unfold slotsOf
    rw [ih, List.filterMap_cons, slotOf?]
    cases memberRole name key value with
    | children => cases value <;> rfl
    | _ => rfl

theorem fieldsOf_eq_filter (name : String) (members : List (String × Json)) :
    fieldsOf name members = members.filter fun member => memberRole name member.1 member.2 = .field := by
  induction members with
  | nil => rfl
  | cons member rest ih =>
    obtain ⟨key, value⟩ := member
    rw [fieldsOf, ih, List.filter_cons]
    cases memberRole name key value <;> rfl

theorem slotOf?_key {member : String × Json} {slot : String × ChildSlot}
    (read : slotOf? name member = some slot) : slot.1 = member.1 := by
  unfold slotOf? at read
  split at read <;> cases read <;> rfl

theorem slotsToJson_eq_map (slots : List (String × ChildSlot)) :
    slotsToJson slots = Members.mapValues slotToJson slots := by
  induction slots with
  | nil => rfl
  | cons entry rest ih =>
    obtain ⟨key, slot⟩ := entry
    rw [slotsToJson, ih]
    rfl

theorem allToJson_eq_map (nodes : List ResultNode) : allToJson nodes = nodes.map toJson := by
  induction nodes with
  | nil => rfl
  | cons node rest ih => rw [allToJson, ih, List.map_cons]

theorem slotsInOrder_eq_map (slots : List (String × ChildSlot)) :
    slotsInOrder slots = Members.mapValues slotInOrder slots := by
  induction slots with
  | nil => rfl
  | cons entry rest ih =>
    obtain ⟨key, slot⟩ := entry
    rw [slotsInOrder, ih]
    rfl

-- All members of the structural form of a node, in the order in which they are written.
def entries (name : String) (fields : Members Json) (slots : List (String × ChildSlot)) :
    List (String × Json) :=
  (typeKey, .string name) :: fields ++ slotsToJson slots

theorem Distinct.entries_apart (distinct : Distinct name fields slots) :
    ((entries name fields slots).map Prod.fst).Nodup := by
  simpa [entries, slotsToJson_eq_map, Members.mapValues_keys] using distinct.apart

theorem Distinct.tagged (distinct : Distinct name fields slots) :
    Members.get? typeKey (Members.ofList (entries name fields slots)) = some (.string name) :=
  Members.get?_ofList distinct.entries_apart List.mem_cons_self

theorem Distinct.slot_key (distinct : Distinct name fields slots) {entry : String × ChildSlot}
    (among : entry ∈ slots) : entry.1 ≠ typeKey := by
  intro same
  refine (List.nodup_cons.mp distinct.apart).1 (List.mem_append_right _ ?_)
  exact same ▸ List.mem_map_of_mem among

theorem Regular.isTyped : ∀ {node : ResultNode}, node.Regular → isTyped node.toJson = true
  | .mk _ _ _, ⟨distinct, _⟩ => by
    simpa [ResultNode.isTyped, toJson, Json.ofEntries, Members.contains, entries] using
      congrArg Option.isSome distinct.tagged

theorem AllRegular.allTyped : ∀ {nodes : List ResultNode}, AllRegular nodes →
    (allToJson nodes).all ResultNode.isTyped = true
  | [], _ => rfl
  | node :: rest, ⟨regular, others⟩ => by
    rw [allToJson, List.all_cons, regular.isTyped, AllRegular.allTyped others]
    rfl

theorem slot_role {slot : ChildSlot} (regular : SlotRegular slot) (apart : key ≠ typeKey)
    (listed : slot = .many [] → isChildField name key = true) :
    memberRole name key (slotToJson slot) =
      match slot with
      | .one _ => .child
      | .many _ => .children := by
  cases slot with
  | one node =>
    have typed : ResultNode.isTyped node.toJson = true := Regular.isTyped regular
    obtain ⟨typeName, fields, slots⟩ := node
    rw [toJson, Json.ofEntries] at typed
    simp only [memberRole, slotToJson, toJson, Json.ofEntries, if_neg apart, typed, if_true]
  | many nodes =>
    cases nodes with
    | nil => simp [memberRole, apart, slotToJson, allToJson, listed]
    | cons node rest =>
      have typed := AllRegular.allTyped regular
      rw [allToJson] at typed
      simp only [memberRole, slotToJson, allToJson, if_neg apart, typed, if_true]

theorem slot_read {slot : ChildSlot} (regular : SlotRegular slot) (apart : key ≠ typeKey)
    (listed : slot = .many [] → isChildField name key = true)
    (one : ∀ node, slot = .one node → ofJson node.toJson = node.inOrder)
    (many : ∀ nodes, slot = .many nodes → allOfJson (allToJson nodes) = allInOrder nodes) :
    slotOf? name (key, slotToJson slot) = some (key, slotInOrder slot) := by
  simp only [slotOf?, slot_role regular apart listed]
  cases slot with
  | one node => exact congrArg (fun read => some (key, ChildSlot.one read)) (one node rfl)
  | many nodes => exact congrArg (fun read => some (key, ChildSlot.many read)) (many nodes rfl)

def Reads (name : String) (slots : List (String × ChildSlot)) : Prop :=
  ∀ entry ∈ slots, slotOf? name (entry.1, slotToJson entry.2) = some (entry.1, slotInOrder entry.2)

theorem Reads.fields_dropped (reads : Reads name slots) : (slotsToJson slots).filter
    (fun member => memberRole name member.1 member.2 = .field) = [] := by
  rw [slotsToJson_eq_map]
  refine List.filter_eq_nil_iff.mpr fun member among role => ?_
  obtain ⟨entry, inside, rfl⟩ := List.mem_map.mp among
  have read := reads entry inside
  rw [slotOf?, of_decide_eq_true role] at read
  cases read

theorem Reads.slots_kept (reads : Reads name slots) :
    (slotsToJson slots).filterMap (slotOf? name) = slotsInOrder slots := by
  rw [slotsToJson_eq_map, slotsInOrder_eq_map, Members.mapValues, List.filterMap_map]
  exact List.filterMap_eq_map_iff_forall_eq_some.mpr reads

theorem Distinct.fields_read (distinct : Distinct name fields slots) (reads : Reads name slots) :
    fieldsOf name (Members.ofList (entries name fields slots)) = fields := by
  have kept : (entries name fields slots).filter
      (fun member => memberRole name member.1 member.2 = .field) = fields := by
    rw [entries, List.filter_append, reads.fields_dropped, List.append_nil,
      List.filter_cons_of_neg (by simp [memberRole])]
    exact List.filter_eq_self.mpr fun member among => decide_eq_true (distinct.scalar member among)
  have perm := (Members.ofList_perm distinct.entries_apart).filter
    fun member => memberRole name member.1 member.2 = .field
  rw [kept] at perm
  rw [fieldsOf_eq_filter]
  exact Members.Ascending.eq_of_perm ((Members.ofList_ascending _).sublist List.filter_sublist)
    distinct.sorted perm

theorem Distinct.slots_read (distinct : Distinct name fields slots) (reads : Reads name slots) :
    slotsOf name (Members.ofList (entries name fields slots)) =
      Members.ofList (slotsInOrder slots) := by
  have none : slotOf? name (typeKey, .string name) = none := by
    simp [slotOf?, memberRole]
  have dropped : fields.filterMap (slotOf? name) = [] := by
    refine List.filterMap_eq_nil_iff.mpr fun member among => ?_
    rw [slotOf?, distinct.scalar member among]
  have perm := (Members.ofList_perm distinct.entries_apart).filterMap (slotOf? name)
  have kept : (entries name fields slots).filterMap (slotOf? name) = slotsInOrder slots := by
    rw [entries, List.filterMap_append, List.filterMap_cons, none, dropped, reads.slots_kept]
    rfl
  have apart : ((slotsInOrder slots).map Prod.fst).Nodup := by
    rw [slotsInOrder_eq_map, Members.mapValues_keys]
    exact (List.nodup_append.mp (List.nodup_cons.mp distinct.apart).2).2.1
  have sorted : Members.Ascending ((Members.ofList (entries name fields slots)).filterMap
      (slotOf? name)) := by
    refine List.Pairwise.filterMap _ ?_ (Members.ofList_ascending _)
    intro first second below one first' two second'
    rwa [slotOf?_key first', slotOf?_key second']
  rw [kept] at perm
  rw [slotsOf_eq_filterMap]
  exact sorted.eq_of_perm (Members.ofList_ascending _) (perm.trans (Members.ofList_perm apart).symm)

mutual

theorem ofJson_toJson : ∀ {node : ResultNode}, node.Regular → ofJson node.toJson = node.inOrder
  | .mk name fields slots, ⟨distinct, regular⟩ => by
    have reads : Reads name slots := fun entry among => slots_read regular entry among
      (distinct.slot_key among) fun none => distinct.listed entry.1 (none ▸ among)
    have tagged := distinct.tagged
    have fieldsRead := distinct.fields_read reads
    have slotsRead := distinct.slots_read reads
    rw [entries] at tagged fieldsRead slotsRead
    rw [toJson, Json.ofEntries, ofJson, tagged]
    simp only [Option.bind_some, Json.toString?, fieldsRead, slotsRead, inOrder]

theorem slots_read {name : String} : ∀ {slots : List (String × ChildSlot)}, SlotsRegular slots →
    ∀ entry ∈ slots, entry.1 ≠ typeKey → (entry.2 = .many [] → isChildField name entry.1 = true) →
      slotOf? name (entry.1, slotToJson entry.2) = some (entry.1, slotInOrder entry.2)
  | (_, slot) :: rest, ⟨regular, others⟩, entry, among, apart, listed => by
    rcases List.mem_cons.mp among with rfl | among
    · cases slot with
      | one node =>
        exact slot_read regular apart listed (fun _ same => by cases same; exact ofJson_toJson regular)
          (fun _ same => nomatch same)
      | many nodes =>
        exact slot_read regular apart listed (fun _ same => nomatch same)
          (fun _ same => by cases same; exact all_read regular)
    · exact slots_read others entry among apart listed

theorem all_read : ∀ {nodes : List ResultNode}, AllRegular nodes →
    allOfJson (allToJson nodes) = allInOrder nodes
  | [], _ => rfl
  | _ :: _, ⟨regular, others⟩ => congrArg₂ List.cons (ofJson_toJson regular) (all_read others)

end

variable {info : NodeInfo} {body : NodeBody} {kind : NodeKind} {node : Node}

theorem shown_not_typed (property : Property) : isTyped property.toJson = false := by
  cases property with
  | number x =>
    rw [Property.toJson, Json.ofFloat]
    split <;> rfl
  | _ => rfl

theorem shown_role (name : String) {property : Property} (apart : key ≠ typeKey)
    (some : property ≠ .list []) : memberRole name key property.toJson = .field := by
  cases property with
  | number x =>
    by_cases finite : x.isFinite
    · simp only [memberRole, if_neg apart, Property.toJson, Json.ofFloat, if_pos finite]
    · simp only [memberRole, if_neg apart, Property.toJson, Json.ofFloat, if_neg finite]
  | list items =>
    cases items with
    | nil => exact absurd rfl some
    | cons item rest =>
      have mixed : (item.toJson :: Property.allToJson rest).all isTyped = false := by
        rw [List.all_cons, shown_not_typed, Bool.false_and]
      simp only [memberRole, Property.toJson, Property.allToJson, if_neg apart, mixed,
        Bool.false_eq_true, if_false]
  | _ => simp only [memberRole, Property.toJson, if_neg apart]

theorem ofNode_field {entry : String × Json} (among : entry ∈ (ofNode (.mk info body)).fields) :
    entry = ("parens", .bool true) ∨ ∃ field ∈ body.properties ++ Node.infoProperties info,
      field.1 ≠ selectorCountKey ∧ entry = (field.1, field.2.toJson) := by
  have plain : entry = ("parens", .bool true) ∨ entry ∈ Members.erase selectorCountKey
      (fieldsOfProperties (body.properties ++ Node.infoProperties info)) := by
    rw [ofNode] at among
    simp only [fields, markParens] at among
    split at among
    · exact Members.insert_keys among
    · exact .inr among
  refine plain.imp_right fun among => ?_
  obtain ⟨present, other⟩ := Members.erase_mem (Members.ofList_ascending _) among
  obtain ⟨field, inside, rfl⟩ := List.mem_map.mp (Members.ofList_mem present)
  exact ⟨field, inside, other, rfl⟩

theorem ofNode_fields_ascending (node : Node) : (ofNode node).fields.Ascending := by
  obtain ⟨info, body⟩ := node
  rw [ofNode]
  have erased : Members.Ascending (Members.erase selectorCountKey
      (fieldsOfProperties (body.properties ++ Node.infoProperties info))) :=
    (Members.ofList_ascending _).sublist (Members.erase_sublist _ _)
  simp only [fields, markParens]
  split
  · exact erased.insert _ _
  · exact erased

theorem names_apart (builtin : body.kind? = some kind) :
    (typeKey :: (slotsOfBody body).map Prod.fst).Nodup ∧
    (∀ key ∈ "parens" :: body.properties.map Prod.fst ++ ["filename", "index"],
      key ≠ selectorCountKey → key ≠ typeKey ∧ key ∉ (slotsOfBody body).map Prod.fst) := by
  cases body with
  | extension => cases builtin
  | color rgb alpha spelling => cases spelling <;> exact of_decide_eq_true rfl
  | _ => exact of_decide_eq_true rfl

theorem ofNode_field_name (builtin : body.kind? = some kind) {entry : String × Json}
    (among : entry ∈ (ofNode (.mk info body)).fields) :
    entry.1 ≠ typeKey ∧ entry.1 ∉ (slotsOfBody body).map Prod.fst := by
  obtain ⟨-, apart⟩ := names_apart builtin
  rcases ofNode_field among with rfl | ⟨field, inside, other, rfl⟩
  · exact apart "parens" List.mem_cons_self (by decide)
  · refine apart field.1 (List.mem_cons_of_mem _ ?_) other
    have key := List.mem_map_of_mem (f := Prod.fst) inside
    rw [List.map_append] at key
    exact ((Node.infoProperties_keys info).append_left _).subset key

theorem no_empty_list (builtin : body.kind? = some kind) :
    ∀ field ∈ body.properties ++ Node.infoProperties info, field.2 ≠ .list [] := by
  have own : ∀ field ∈ body.properties, field.2 ≠ .list [] := by
    cases body with
    | extension => cases builtin
    | color rgb alpha spelling => cases spelling <;> simp [NodeBody.properties, Rgb.toList]
    | _ => simp [NodeBody.properties]
  have shown : ∀ field ∈ Node.infoProperties info, field.2 ≠ .list [] := by
    obtain ⟨flags, file, index⟩ := info
    cases file <;> cases index <;> simp [Node.infoProperties]
  exact List.forall_mem_append.mpr ⟨own, shown⟩

theorem listed_childField (builtin : body.kind? = some kind) {nodes : List ResultNode}
    (among : (key, ChildSlot.many nodes) ∈ slotsOfBody body) : isChildField body.typeName key = true := by
  cases body with
  | extension => cases builtin
  | ruleset selectors rules =>
    rcases List.mem_cons.mp among with same | among
    · cases same
      rfl
    · cases List.mem_singleton.mp among
      rfl
  | declaration | paren | url => cases List.mem_singleton.mp among
  | selector | value | expression | arguments | call | operation =>
    cases List.mem_singleton.mp among
    rfl
  | _ => cases among

theorem ofNode_distinct (builtin : body.kind? = some kind) :
    Distinct body.typeName (ofNode (.mk info body)).fields (slotsOfBody body) where
  sorted := ofNode_fields_ascending _
  apart := by
    obtain ⟨slots, -⟩ := names_apart builtin
    obtain ⟨tag, slots⟩ := List.nodup_cons.mp slots
    have names := fun entry => @ofNode_field_name info body kind builtin entry
    have fields : ((ofNode (.mk info body)).fields.map Prod.fst).Nodup :=
      List.pairwise_map.mpr ((ofNode_fields_ascending _).imp String.ne_of_lt)
    refine List.nodup_cons.mpr ⟨?_, List.nodup_append.mpr ⟨fields, slots, ?_⟩⟩
    · intro among
      rcases List.mem_append.mp among with own | among
      · obtain ⟨entry, inside, same⟩ := List.mem_map.mp own
        exact (names entry inside).1 same
      · exact tag among
    · rintro key own other among rfl
      obtain ⟨entry, inside, rfl⟩ := List.mem_map.mp own
      exact (names entry inside).2 among
  scalar := by
    intro entry among
    obtain ⟨apart, -⟩ := ofNode_field_name builtin among
    rcases ofNode_field among with rfl | ⟨field, inside, -, rfl⟩
    · simp only [memberRole, if_neg apart]
    · exact shown_role _ apart (no_empty_list builtin field inside)
  listed _ among := listed_childField builtin among

theorem AllRegular.ofNodes {nodes : List Node} (each : ∀ child ∈ nodes, (ofNode child).Regular) :
    AllRegular (ofNodes nodes) := by
  induction nodes with
  | nil => trivial
  | cons child rest ih =>
    exact ⟨each child List.mem_cons_self, ih fun other among => each other (List.mem_cons_of_mem _ among)⟩

theorem slotsOfBody_regular (each : ∀ child ∈ body.children, (ofNode child).Regular) :
    SlotsRegular (slotsOfBody body) := by
  cases body with
  | ruleset selectors rules =>
    refine ⟨.ofNodes fun child among => each child ?_, .ofNodes fun child among => each child ?_, trivial⟩
    · simpa [NodeBody.children, NodeBody.childFields, ChildGroup.nodes] using .inl among
    · simpa [NodeBody.children, NodeBody.childFields, ChildGroup.nodes] using .inr among
  | declaration | paren | url => exact ⟨each _ List.mem_cons_self, trivial⟩
  | selector | value | expression | arguments | call | operation | extension =>
    refine ⟨.ofNodes fun child among => each child ?_, trivial⟩
    simpa [NodeBody.children, NodeBody.childFields, ChildGroup.nodes] using among
  | _ => trivial

theorem ofNode_regular (builtin : node.Builtin) : (ofNode node).Regular := by
  induction node using Node.byChildren with
  | step node ih =>
    obtain ⟨kind, known⟩ := builtin.kind
    have below := fun child among => ih child among (builtin.below among)
    obtain ⟨info, body⟩ := node
    have distinct : Distinct body.typeName (ofNode (.mk info body)).fields (slotsOfBody body) :=
      ofNode_distinct known
    rw [ofNode] at distinct ⊢
    exact ⟨distinct, slotsOfBody_regular below⟩

theorem allInOrder_ofNodes (nodes : List Node) : allInOrder (ofNodes nodes) = ofNodes nodes ↔
    ∀ child ∈ nodes, (ofNode child).inOrder = ofNode child := by
  induction nodes with
  | nil => simp [ofNodes, allInOrder]
  | cons node rest ih => simp [ofNodes, allInOrder, ih]

theorem inOrder_level : (ofNode node).inOrder = ofNode node ↔
    node.kind? ≠ some .ruleset ∧ ∀ child ∈ node.children, (ofNode child).inOrder = ofNode child := by
  obtain ⟨info, body⟩ := node
  cases body with
  | ruleset selectors rules =>
    have sorted : (ofNode (.mk info (.ruleset selectors rules))).inOrder.slots.map Prod.fst =
        ["rules", "selectors"] := by
      have before : ("rules" : String) < "selectors" := by decide
      simp [ofNode, inOrder, slotsOfBody, slotsInOrder, slots, Members.ofList, Members.insert, before]
    have written : (ofNode (.mk info (.ruleset selectors rules))).slots.map Prod.fst =
        ["selectors", "rules"] := rfl
    constructor
    · intro same
      rw [same, written] at sorted
      exact absurd sorted (by decide)
    · intro none
      exact absurd rfl none.1
  | _ =>
    simp [ofNode, inOrder, slotsOfBody, slotsInOrder, slotInOrder, Members.ofList, Members.insert, 
      Node.kind?, Node.body, NodeBody.kind?, Node.children, NodeBody.children, NodeBody.childFields,
      ChildGroup.nodes, allInOrder_ofNodes]

theorem inOrder_ofNode : (ofNode node).inOrder = ofNode node ↔
    ∀ inner, Node.Within inner node → inner.kind? ≠ some .ruleset := by
  induction node using Node.byChildren with
  | step node ih =>
    rw [inOrder_level]
    constructor
    · rintro ⟨here, below⟩
      exact Node.Within.every here fun child among => (ih child among).mp (below child among)
    · intro none
      refine ⟨none node (.here node), fun child among => (ih child among).mpr ?_⟩
      exact fun inner within => none inner (.deeper within among)

end ResultNode

-- Over the structural form a node keeps its type, its fields and its slots, but the slots come
-- back in the order of their names. So a node without rulesets arrives as on the direct way, and
-- one with a ruleset does not.
theorem json_route {node : Node}
    (builtin : ∀ inner, Node.Within inner node → inner.kind?.isSome) :
    ResultNode.ofJson (ResultNode.ofNode node).toJson = (ResultNode.ofNode node).inOrder ∧
      (ResultNode.ofJson (ResultNode.ofNode node).toJson = ResultNode.ofNode node ↔
        ∀ inner, Node.Within inner node → inner.kind? ≠ some .ruleset) := by
  have read := ResultNode.ofJson_toJson (ResultNode.ofNode_regular builtin)
  exact ⟨read, read ▸ ResultNode.inOrder_ofNode⟩

-- A call in parentheses whose second argument is an empty list of arguments.
theorem json_route_call :
    let node := Node.mk ⟨.parens, none, some 7⟩
      (.call "f" [.plain (.keyword "red"), .plain (.arguments [])])
    (∀ inner, Node.Within inner node → inner.kind?.isSome) ∧
      ResultNode.ofJson (ResultNode.ofNode node).toJson = ResultNode.ofNode node := by
  intro node
  have every : ∀ inner, Node.Within inner node →
      inner.kind?.isSome ∧ inner.kind? ≠ some .ruleset := by
    refine Node.Within.every (by decide) fun child among => ?_
    rcases List.mem_cons.mp among with rfl | among
    · exact Node.Within.every (by decide) fun child among => absurd among List.not_mem_nil
    · cases List.mem_singleton.mp among
      exact Node.Within.every (by decide) fun child among => absurd among List.not_mem_nil
  have builtin := fun inner within => (every inner within).1
  exact ⟨builtin, (json_route builtin).2.mpr fun inner within => (every inner within).2⟩

-- A ruleset with a selector and a rule lists the rule first when it comes back.
theorem json_route_ruleset :
    let node := Node.plain (.ruleset [.plain (.keyword ".a")]
      [.plain (.declaration "color" (.plain (.keyword "red")) false)])
    (∀ inner, Node.Within inner node → inner.kind?.isSome) ∧
      (ResultNode.ofNode node).children.map ResultNode.typeName = ["Keyword", "Declaration"] ∧
      (ResultNode.ofJson (ResultNode.ofNode node).toJson).children.map ResultNode.typeName =
        ["Declaration", "Keyword"] := by
  intro node
  refine ⟨?_, by decide +kernel⟩
  refine Node.Within.every rfl fun child among => ?_
  rcases List.mem_cons.mp among with rfl | among
  · exact Node.Within.every rfl fun child among => absurd among List.not_mem_nil
  · cases List.mem_singleton.mp among
    refine Node.Within.every rfl fun child among => ?_
    cases List.mem_singleton.mp among
    exact Node.Within.every rfl fun child among => absurd among List.not_mem_nil

end PluginBridge
