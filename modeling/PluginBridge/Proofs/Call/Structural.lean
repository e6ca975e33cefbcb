import PluginBridge.Proofs.Call.JsonRoute
import PluginBridge.Proofs.Json.Depth
namespace PluginBridge

namespace Json

mutual

-- The values of the library: members stand in the order of their names, each once, at every level.
def Ordered : Json → Prop
  | .array items => ItemsOrdered items
  | .object members => Members.Ascending members ∧ MembersOrdered members
  | _ => True

def ItemsOrdered : List Json → Prop
  | [] => True
  | item :: rest => Ordered item ∧ ItemsOrdered rest

def MembersOrdered : List (String × Json) → Prop
  | [] => True
  | (_, value) :: rest => Ordered value ∧ MembersOrdered rest

end

theorem membersOrdered_iff {members : List (String × Json)} :
    MembersOrdered members ↔ ∀ entry ∈ members, Ordered entry.2 := by
  induction members with
  | nil => exact ⟨fun _ _ among => (List.not_mem_nil among).elim, fun _ => trivial⟩
  | cons entry rest ih =>
    obtain ⟨key, value⟩ := entry
    rw [MembersOrdered, ih, List.forall_mem_cons]

theorem ordered_entries {entries : List (String × Json)} (each : ∀ entry ∈ entries, Ordered entry.2) :
    (ofEntries entries).Ordered :=
  ⟨Members.ofList_ascending _, membersOrdered_iff.mpr fun entry among => each entry (Members.ofList_mem among)⟩

end Json

namespace ResultNode
open Json (Ordered ItemsOrdered MembersOrdered)
variable {name : String} {members : List (String × Json)}

theorem memberRole_cases (name key : String) (value : Json) :
    (key = typeKey ∧ memberRole name key value = .typeTag) ∨
      (key ≠ typeKey ∧ memberRole name key value = .field) ∨
      (key ≠ typeKey ∧ memberRole name key value = .child ∧ isTyped value = true) ∨
      (key ≠ typeKey ∧ memberRole name key value = .children ∧
        ∃ items, value = .array items ∧ items.all isTyped = true) := by
  by_cases tag : key = typeKey
  · exact .inl ⟨tag, by simp only [memberRole, if_pos tag]⟩
  · refine .inr ?_
    cases value with
    | object members =>
      by_cases typed : isTyped (.object members) = true
      · exact .inr (.inl ⟨tag, by simp only [memberRole, if_neg tag, if_pos typed], typed⟩)
      · exact .inl ⟨tag, by simp only [memberRole, if_neg tag, if_neg typed]⟩
    | array items =>
      cases items with
      | nil =>
        by_cases listed : isChildField name key = true
        · exact .inr (.inr ⟨tag, by simp only [memberRole, if_neg tag, if_pos listed], [], rfl, rfl⟩)
        · exact .inl ⟨tag, by simp only [memberRole, if_neg tag, if_neg listed]⟩
      | cons item rest =>
        by_cases typed : (item :: rest).all isTyped = true
        · exact .inr (.inr ⟨tag, by simp only [memberRole, if_neg tag, if_pos typed], _, rfl, typed⟩)
        · exact .inl ⟨tag, by simp only [memberRole, if_neg tag, if_neg typed]⟩
    | _ => exact .inl ⟨tag, by simp only [memberRole, if_neg tag]⟩

theorem member_part (name key : String) (value : Json) :
    (key = typeKey ∧ memberRole name key value ≠ .field ∧ slotOf? name (key, value) = none) ∨
      (key ≠ typeKey ∧ memberRole name key value = .field ∧ slotOf? name (key, value) = none) ∨
      (key ≠ typeKey ∧ memberRole name key value ≠ .field ∧ ∃ slot, slotOf? name (key, value) = some slot) := by
  simp only [slotOf?]
  rcases memberRole_cases name key value with ⟨tag, role⟩ | ⟨other, role⟩ | ⟨other, role, _⟩ |
    ⟨other, role, items, rfl, _⟩
  all_goals rw [role]
  · exact .inl ⟨tag, MemberRole.noConfusion, rfl⟩
  · exact .inr (.inl ⟨other, rfl, rfl⟩)
  · exact .inr (.inr ⟨other, MemberRole.noConfusion, _, rfl⟩)
  · exact .inr (.inr ⟨other, MemberRole.noConfusion, _, rfl⟩)

theorem slotOf?_some {key : String} {value : Json} {slot : String × ChildSlot}
    (read : slotOf? name (key, value) = some slot) :
    (isTyped value = true ∧ slot = (key, .one (ofJson value))) ∨
      ∃ items, value = .array items ∧ items.all isTyped = true ∧ slot = (key, .many (allOfJson items)) := by
  rcases memberRole_cases name key value with ⟨_, role⟩ | ⟨_, role⟩ | ⟨_, role, typed⟩ | ⟨_, role, items, rfl, typed⟩
  all_goals rw [slotOf?, role] at read; cases read
  · exact .inl ⟨typed, rfl⟩
  · exact .inr ⟨items, rfl, typed, rfl⟩

def Kept (name : String) (member : String × Json) : Prop :=
  ∀ slot, slotOf? name member = some slot → (slot.1, slotToJson slot.2) = member

theorem parts_perm (kept : ∀ member ∈ members, Kept name member) :
    (members.filter (fun member => member.1 = typeKey) ++ fieldsOf name members ++
      slotsToJson (slotsOf name members)).Perm members := by
  rw [fieldsOf_eq_filter, slotsOf_eq_filterMap, slotsToJson_eq_map]
  induction members with
  | nil => exact .refl _
  | cons member rest ih =>
    obtain ⟨here, others⟩ := List.forall_mem_cons.mp kept
    have later := (ih others).cons member
    obtain ⟨key, value⟩ := member
    rcases member_part name key value with ⟨tag, role, none⟩ | ⟨other, role, none⟩ | ⟨other, role, slot, read⟩
    · rw [List.filter_cons_of_pos (by simpa using tag), List.filter_cons_of_neg (by simp [role]),
        List.filterMap_cons_none none]
      exact later
    · rw [List.filter_cons_of_neg (by simpa using other), List.filter_cons_of_pos (by simp [role]),
        List.filterMap_cons_none none, List.append_assoc, List.cons_append]
      exact List.perm_middle.trans (List.append_assoc .. ▸ later)
    · rw [List.filter_cons_of_neg (by simpa using other), List.filter_cons_of_neg (by simpa using role),
        List.filterMap_cons_some read, Members.mapValues, List.map_cons, here slot read]
      exact List.perm_middle.trans later

theorem object_preserved (sorted : Members.Ascending members) (tagged : Members.contains typeKey members = true)
    (kept : ∀ name, ∀ member ∈ members, Kept name member) :
    (ofJson (.object members)).toJson = .object members := by
  rw [ofJson]
  split
  -- Without a name that is a string every member is a field, the one under the key of names included.
  · rw [toJson, slotsToJson, List.append_nil, Json.ofEntries, Members.ofList_covered sorted tagged]
  · rename_i name named
    have found : Members.get? typeKey members = some (.string name) := by
      cases tag : Members.get? typeKey members with
      | none => rw [tag] at named; cases named
      | some value =>
        rw [tag] at named
        cases value with
        | string text => cases named; rfl
        | _ => cases named
    have perm := parts_perm (kept name)
    rw [Members.filter_key sorted found] at perm
    rw [toJson, Json.ofEntries]
    refine congrArg Json.object ((Members.ofList_ascending _).eq_of_perm sorted ?_)
    exact (Members.ofList_perm ((perm.map _).nodup_iff.mpr sorted.keys_nodup)).trans perm

mutual

theorem typed_preserved : ∀ {json : Json}, json.Ordered → isTyped json = true → (ofJson json).toJson = json
  | .object _, ⟨sorted, ordered⟩, tagged => object_preserved sorted tagged fun _ => members_kept ordered

theorem items_preserved : ∀ {items : List Json}, ItemsOrdered items → items.all isTyped = true →
    allToJson (allOfJson items) = items
  | [], _, _ => rfl
  | _ :: _, ⟨first, later⟩, typed =>
    have ⟨here, others⟩ := Bool.and_eq_true_iff.mp (List.all_cons ▸ typed)
    congrArg₂ List.cons (typed_preserved first here) (items_preserved later others)

theorem members_kept {name : String} : ∀ {members : List (String × Json)}, MembersOrdered members →
    ∀ member ∈ members, Kept name member
  | (key, value) :: rest, ⟨first, later⟩, member, among, slot, read => by
    rcases List.mem_cons.mp among with rfl | among
    · cases value with
      | array items =>
        rcases slotOf?_some read with ⟨typed, rfl⟩ | ⟨_, same, typed, rfl⟩
        · cases typed
        · cases same
          exact congrArg (key, Json.array ·) (items_preserved first typed)
      | object inner =>
        rcases slotOf?_some read with ⟨typed, rfl⟩ | ⟨_, same, _⟩
        · exact congrArg (key, ·) (typed_preserved first typed)
        · cases same
      | _ => rcases slotOf?_some read with ⟨typed, _⟩ | ⟨_, same, _⟩ <;> first | cases typed | cases same
    · exact members_kept later member among slot read

end

theorem toJson_typed (node : ResultNode) : isTyped node.toJson = true := by
  obtain ⟨name, fields, slots⟩ := node
  rw [toJson, Json.ofEntries, isTyped]
  exact Members.ofList_head typeKey _ _

theorem toJson_ordered {fields : Members Json} {slots : List (String × ChildSlot)}
    (content : ∀ field ∈ fields, field.2.Ordered) (children : ∀ slot ∈ slots, (slotToJson slot.2).Ordered) :
    (mk name fields slots).toJson.Ordered := by
  rw [toJson, slotsToJson_eq_map]
  refine Json.ordered_entries fun entry among => ?_
  rcases List.mem_append.mp among with own | below
  · rcases List.mem_cons.mp own with rfl | own
    · trivial
    · exact content entry own
  · obtain ⟨slot, inside, rfl⟩ := List.mem_map.mp below
    exact children slot inside

theorem insert_ordered {fields : Members Json} {key : String} {value : Json} (shown : value.Ordered)
    (content : ∀ field ∈ fields, field.2.Ordered) : ∀ field ∈ Members.insert key value fields, field.2.Ordered := by
  intro field among
  rcases Members.insert_keys among with rfl | old
  · exact shown
  · exact content field old

theorem ofFloat_ordered (x : Binary64) : (Json.ofFloat x).Ordered := by
  rw [Json.ofFloat]
  split <;> trivial

mutual

theorem ofJson_ordered : ∀ {json : Json}, json.Ordered → (ofJson json).toJson.Ordered
  | .null, _ => toJson_ordered (List.forall_mem_nil _) (List.forall_mem_nil _)
  | .bool b, _ =>
    have shown : (Json.bool b).Ordered := trivial
    toJson_ordered (insert_ordered shown (List.forall_mem_nil _)) (List.forall_mem_nil _)
  | .number n, _ =>
    have unit : (Json.string "").Ordered := trivial
    have size := insert_ordered (ofFloat_ordered n.toFloat) (List.forall_mem_nil _)
    toJson_ordered (insert_ordered unit size) (List.forall_mem_nil _)
  | .string s, _ =>
    have shown : (Json.string s).Ordered := trivial
    toJson_ordered (insert_ordered shown (List.forall_mem_nil _)) (List.forall_mem_nil _)
  | .array _, ordered =>
    toJson_ordered (List.forall_mem_nil _) (List.forall_mem_singleton.mpr (items_ordered ordered))
  | .object members, ordered => by
    by_cases tagged : isTyped (.object members) = true
    · rwa [typed_preserved ordered tagged]
    · have untagged : Members.get? typeKey members = none := by
        simpa [isTyped, Members.contains] using tagged
      rw [ofJson, untagged]
      exact toJson_ordered (Json.membersOrdered_iff.mp ordered.2) (List.forall_mem_nil _)

theorem items_ordered : ∀ {items : List Json}, ItemsOrdered items → ItemsOrdered (allToJson (allOfJson items))
  | [], _ => trivial
  | _ :: _, ⟨first, later⟩ => ⟨ofJson_ordered first, items_ordered later⟩

end

end ResultNode

open ResultNode (isTyped ofJson fields slots)

-- A record with a type name, of whatever shape, is written as it was read. Any other value becomes such a
-- record, so that what is read from what was written is written as it was.
theorem structural_form_preserved {json : Json} (ordered : json.Ordered) :
    (isTyped json = true → (ofJson json).toJson = json) ∧
      (ofJson (ofJson json).toJson).toJson = (ofJson json).toJson :=
  ⟨ResultNode.typed_preserved ordered,
    ResultNode.typed_preserved (ResultNode.ofJson_ordered ordered) (ResultNode.toJson_typed _)⟩

-- A tag that is a string above one that is not, an empty list under a name for children and under another
-- one, and a list of a record with a tag and one without.
theorem structural_form_odd : ∃ json,
    json = Json.object [("_type", .string "Grid"), ("children", .array []), ("elements", .array []),
      ("mixed", .array [.object [("_type", .null)], .object []]),
      ("only", .object [("_type", .natural 5), ("rules", .array [.object [("_type", .bool true)]])])] ∧
    isTyped json = true ∧ (fields (ofJson json)).map Prod.fst = ["elements", "mixed"] ∧
    (slots (ofJson json)).map Prod.fst = ["children", "only"] ∧ (ofJson json).toJson = json ∧
    (ofJson (ofJson json).toJson).toJson = (ofJson json).toJson := by
  refine ⟨_, rfl, rfl, by decide +kernel, by decide +kernel, ?_⟩
  refine (structural_form_preserved ?_).imp_left fun preserved => preserved rfl
  simp only [Json.Ordered, Json.ItemsOrdered, Json.MembersOrdered, Json.natural, Members.Ascending]
  decide +kernel

end PluginBridge
