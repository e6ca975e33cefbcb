import Mathlib.Data.List.Induction
import Mathlib.Data.List.Pairwise
import Mathlib.Data.List.Perm.Lattice
import Mathlib.Tactic.Common
import PluginBridge.Members
namespace PluginBridge
namespace Members
variable {α β : Type}

theorem get?_insert (name other : String) (value : α) (members : Members α) :
    (insert name value members).get? other =
      if name = other then some value else get? other members := by
  induction members with
  | nil => simp [insert, get?]
  | cons entry rest ih =>
    obtain ⟨key, old⟩ := entry
    simp only [insert]
    split
    · rename_i same
      subst same
      by_cases here : name = other <;> simp [get?, here]
    · split
      · simp [get?]
      · rename_i apart _
        by_cases here : key = other
        · subst here
          simp [get?, apart]
        · simp [get?, here, ih]

def Ascending (members : Members α) : Prop := members.Pairwise fun a b => a.1 < b.1

theorem insert_keys {name : String} {value : α} {members : Members α} {entry : String × α}
    (present : entry ∈ insert name value members) : entry = (name, value) ∨ entry ∈ members := by
  induction members with
  | nil => simpa [insert] using present
  | cons head rest ih =>
    obtain ⟨key, old⟩ := head
    simp only [insert] at present
    split at present
    · rcases List.mem_cons.mp present with new | old
      · exact .inl new
      · exact .inr (List.mem_cons_of_mem _ old)
    · split at present
      · rcases List.mem_cons.mp present with new | old
        · exact .inl new
        · exact .inr old
      · rcases List.mem_cons.mp present with first | later
        · exact .inr (first ▸ List.mem_cons_self)
        · exact (ih later).imp_right (List.mem_cons_of_mem _)

theorem Ascending.insert {members : Members α} (sorted : Ascending members) (name : String)
    (value : α) : Ascending (insert name value members) := by
  induction members with
  | nil => exact List.pairwise_singleton _ _
  | cons head rest ih =>
    obtain ⟨key, old⟩ := head
    obtain ⟨first, later⟩ := List.pairwise_cons.mp sorted
    simp only [Members.insert]
    split
    · rename_i same
      subst same
      exact List.pairwise_cons.mpr ⟨first, later⟩
    · rename_i apart
      split
      · rename_i before
        refine List.pairwise_cons.mpr ⟨?_, sorted⟩
        intro entry present
        rcases List.mem_cons.mp present with rfl | rest
        · exact before
        · exact String.lt_trans before (first entry rest)
      · rename_i after
        refine List.pairwise_cons.mpr ⟨?_, ih later⟩
        intro entry present
        rcases insert_keys present with rfl | rest
        · by_contra notBelow
          exact apart (String.le_antisymm (String.not_lt.mp notBelow) (String.not_lt.mp after))
        · exact first entry rest

theorem insert_last {members : Members α} {name : String} (value : α)
    (below : ∀ entry ∈ members, entry.1 < name) :
    insert name value members = members ++ [(name, value)] := by
  induction members with
  | nil => rfl
  | cons head rest ih =>
    obtain ⟨key, old⟩ := head
    have first : key < name := below (key, old) List.mem_cons_self
    have apart : name ≠ key := fun same => String.lt_irrefl key (same ▸ first)
    have later : ¬ name < key := String.lt_asymm first
    rw [insert, if_neg apart, if_neg later,
      ih fun entry present => below entry (List.mem_cons_of_mem _ present), List.cons_append]

theorem ofList_append (entries more : List (String × α)) :
    ofList (entries ++ more) = more.foldl (fun members entry => insert entry.1 entry.2 members)
      (ofList entries) := by
  simp [ofList]

theorem ofList_snoc (entries : List (String × α)) (entry : String × α) :
    ofList (entries ++ [entry]) = insert entry.1 entry.2 (ofList entries) :=
  ofList_append entries [entry]

theorem ofList_ascending (entries : List (String × α)) : Ascending (ofList entries) := by
  induction entries using List.reverseRecOn with
  | nil => exact .nil
  | append_singleton entries entry ih =>
    rw [ofList_snoc]
    exact ih.insert _ _

theorem Ascending.ofList {members : Members α} (sorted : Ascending members) :
    Members.ofList members = members := by
  induction members using List.reverseRecOn with
  | nil => rfl
  | append_singleton members entry ih =>
    obtain ⟨before, _, below⟩ := List.pairwise_append.mp sorted
    rw [ofList_snoc, ih before, insert_last entry.2 fun other present =>
      below other present entry (List.mem_singleton_self _)]

def mapValues (f : α → β) (members : List (String × α)) : List (String × β) :=
  members.map fun entry => (entry.1, f entry.2)

theorem insert_map (f : α → β) (name : String) (value : α) (members : Members α) :
    mapValues f (insert name value members) = insert name (f value) (mapValues f members) := by
  induction members with
  | nil => rfl
  | cons head rest ih =>
    obtain ⟨key, old⟩ := head
    simp only [insert, mapValues, List.map_cons] at ih ⊢
    split
    · rfl
    · split
      · rfl
      · rw [List.map_cons, ih]

theorem ofList_map (f : α → β) (entries : List (String × α)) :
    Members.ofList (mapValues f entries) = mapValues f (Members.ofList entries) := by
  induction entries using List.reverseRecOn with
  | nil => rfl
  | append_singleton entries entry ih =>
    have split : mapValues f (entries ++ [entry]) = mapValues f entries ++ [(entry.1, f entry.2)] := by
      simp [mapValues]
    rw [split, ofList_snoc, ofList_snoc, ih, insert_map]

theorem ofList_mem {entries : List (String × α)} {entry : String × α}
    (present : entry ∈ Members.ofList entries) : entry ∈ entries := by
  induction entries using List.reverseRecOn with
  | nil => cases present
  | append_singleton entries last ih =>
    rw [ofList_snoc] at present
    rcases insert_keys present with rfl | old
    · exact List.mem_append_right _ (List.mem_singleton_self _)
    · exact List.mem_append_left _ (ih old)

theorem get?_mapValues (f : α → β) (name : String) (members : List (String × α)) :
    get? name (mapValues f members) = (get? name members).map f := by
  induction members with
  | nil => rfl
  | cons entry rest ih =>
    obtain ⟨key, value⟩ := entry
    simp only [mapValues, List.map_cons, get?] at ih ⊢
    split
    · rfl
    · exact ih

theorem insert_perm {name : String} (value : α) {members : Members α}
    (fresh : ∀ entry ∈ members, entry.1 ≠ name) :
    (insert name value members).Perm ((name, value) :: members) := by
  induction members with
  | nil => exact .refl _
  | cons head rest ih =>
    obtain ⟨key, old⟩ := head
    have apart : name ≠ key := (fresh (key, old) List.mem_cons_self).symm
    simp only [insert, if_neg apart]
    split
    · exact .refl _
    · have later := ih fun entry among => fresh entry (List.mem_cons_of_mem _ among)
      exact (later.cons _).trans (.swap _ _ _)

theorem ofList_perm {entries : List (String × α)} (apart : (entries.map Prod.fst).Nodup) :
    (Members.ofList entries).Perm entries := by
  induction entries using List.reverseRecOn with
  | nil => exact .refl _
  | append_singleton entries last ih =>
    rw [List.map_append, List.map_singleton, List.nodup_append] at apart
    obtain ⟨before, _, differ⟩ := apart
    rw [ofList_snoc]
    have fresh : ∀ entry ∈ Members.ofList entries, entry.1 ≠ last.1 := by
      intro entry among
      exact differ _ (List.mem_map_of_mem (ofList_mem among)) _ (List.mem_singleton_self _)
    exact (insert_perm last.2 fresh).trans
      (((ih before).cons last).trans (List.perm_append_singleton last entries).symm)

theorem get?_ofList {entries : List (String × α)} {name : String} {value : α}
    (apart : (entries.map Prod.fst).Nodup) (among : (name, value) ∈ entries) :
    get? name (Members.ofList entries) = some value := by
  induction entries using List.reverseRecOn with
  | nil => cases among
  | append_singleton entries last ih =>
    rw [List.map_append, List.map_singleton, List.nodup_append] at apart
    obtain ⟨before, _, differ⟩ := apart
    rw [ofList_snoc, get?_insert]
    rcases List.mem_append.mp among with early | here
    · have other : last.1 ≠ name :=
        (differ name (List.mem_map_of_mem early) _ (List.mem_singleton_self _)).symm
      rw [if_neg other, ih before early]
    · cases List.mem_singleton.mp here
      rw [if_pos rfl]

theorem erase_absent {name : String} {members : Members α} (absent : ∀ entry ∈ members, entry.1 ≠ name) :
    erase name members = members := by
  induction members with
  | nil => rfl
  | cons head rest ih =>
    obtain ⟨key, value⟩ := head
    have other : key ≠ name := absent (key, value) List.mem_cons_self
    rw [erase, if_neg other, ih fun entry among => absent entry (List.mem_cons_of_mem _ among)]

theorem insert_first {name : String} (value : α) {members : Members α}
    (above : ∀ entry ∈ members, name < entry.1) :
    insert name value members = (name, value) :: members := by
  cases members with
  | nil => rfl
  | cons head rest =>
    obtain ⟨key, old⟩ := head
    have before : name < key := above (key, old) List.mem_cons_self
    have apart : name ≠ key := fun same => String.lt_irrefl key (same ▸ before)
    rw [insert, if_neg apart, if_pos before]

theorem erase_insert {name key : String} {members : Members α} (sorted : Ascending members)
    (apart : name ≠ key) (value : α) :
    erase name (insert key value members) = insert key value (erase name members) := by
  induction members with
  | nil => simp [insert, erase, apart.symm]
  | cons head rest ih =>
    obtain ⟨first, old⟩ := head
    obtain ⟨below, later⟩ := List.pairwise_cons.mp sorted
    by_cases here : first = name
    · subst here
      rw [erase, if_pos rfl, insert, if_neg apart.symm]
      split
      · rename_i before
        have above : ∀ entry ∈ rest, key < entry.1 := fun entry among =>
          String.lt_trans before (below entry among)
        rw [erase, if_neg apart.symm, erase, if_pos rfl, insert_first value above]
      · rw [erase, if_pos rfl]
    · rw [erase, if_neg here, insert, insert]
      split
      · rw [erase, if_neg apart.symm]
      · split
        · rw [erase, if_neg apart.symm, erase, if_neg here]
        · rw [erase, if_neg here, ih later]

theorem Ascending.eq_of_perm {members others : Members α} (sorted : Ascending members)
    (same : Ascending others) (perm : members.Perm others) : members = others :=
  perm.eq_of_pairwise (fun _ _ _ _ below above => absurd above (String.lt_asymm below)) sorted same

theorem ofList_eq_of_perm {entries others : List (String × α)} (apart : (entries.map Prod.fst).Nodup)
    (perm : entries.Perm others) : Members.ofList entries = Members.ofList others :=
  (ofList_ascending entries).eq_of_perm (ofList_ascending others)
    ((ofList_perm apart).trans (perm.trans (ofList_perm ((perm.map _).nodup_iff.mp apart)).symm))

theorem erase_sublist (name : String) (members : Members α) : (erase name members).Sublist members := by
  induction members with
  | nil => exact .slnil
  | cons entry rest ih =>
    obtain ⟨key, value⟩ := entry
    rw [erase]
    split
    · exact List.sublist_cons_self _ _
    · exact ih.cons_cons _

theorem erase_mem {name : String} {members : Members α} (sorted : Ascending members)
    {entry : String × α} (among : entry ∈ erase name members) : entry ∈ members ∧ entry.1 ≠ name := by
  refine ⟨(erase_sublist name members).subset among, ?_⟩
  induction members with
  | nil => cases among
  | cons head rest ih =>
    obtain ⟨key, value⟩ := head
    obtain ⟨below, later⟩ := List.pairwise_cons.mp sorted
    rw [erase] at among
    split at among
    · rename_i here
      intro same
      have above := below entry among
      rw [same, here] at above
      exact String.lt_irrefl _ above
    · rename_i other
      rcases List.mem_cons.mp among with rfl | among
      · exact other
      · exact ih later among

theorem mapValues_keys (f : α → β) (members : List (String × α)) :
    (mapValues f members).map Prod.fst = members.map Prod.fst := by
  rw [mapValues, List.map_map]
  rfl

theorem get?_erase {name other : String} (apart : name ≠ other) (members : Members α) :
    get? other (erase name members) = get? other members := by
  induction members with
  | nil => rfl
  | cons entry rest ih =>
    obtain ⟨key, value⟩ := entry
    rw [erase]
    split
    · rename_i same
      rw [get?, if_neg (same ▸ apart)]
    · rw [get?, get?, ih]

theorem get?_mem {name : String} {members : Members α} {value : α} (found : get? name members = some value) :
    (name, value) ∈ members := by
  induction members with
  | nil => cases found
  | cons entry rest ih =>
    obtain ⟨key, first⟩ := entry
    rw [get?] at found
    split at found
    · rename_i same
      cases found
      exact same ▸ List.mem_cons_self
    · exact List.mem_cons_of_mem _ (ih found)

theorem get?_absent {name : String} {members : Members α} (none : get? name members = none) :
    ∀ entry ∈ members, entry.1 ≠ name := by
  induction members with
  | nil => exact fun entry among => absurd among List.not_mem_nil
  | cons entry rest ih =>
    obtain ⟨key, value⟩ := entry
    rw [get?] at none
    split at none
    · cases none
    · rename_i apart
      exact List.forall_mem_cons.mpr ⟨apart, ih none⟩

-- Where no name occurs twice it does not matter whether the entries were collected.
theorem get?_collected {name : String} {entries : List (String × α)} (apart : (entries.map Prod.fst).Nodup) :
    get? name (Members.ofList entries) = get? name entries := by
  cases found : get? name entries with
  | some value => exact get?_ofList apart (get?_mem found)
  | none =>
    cases collected : get? name (Members.ofList entries) with
    | none => rfl
    | some value => exact absurd rfl (get?_absent found _ (ofList_mem (get?_mem collected)))

theorem get?_of_mem {entry : String × α} {entries : List (String × α)}
    (apart : (entries.map Prod.fst).Nodup) (among : entry ∈ entries) :
    get? entry.1 entries = some entry.2 :=
  (get?_collected apart).symm.trans (get?_ofList apart among)

theorem get?_append_absent {name : String} {members more : Members α} (absent : ∀ entry ∈ more, entry.1 ≠ name) :
    get? name (members ++ more) = get? name members := by
  induction members with
  | nil =>
    cases found : get? name more with
    | none => exact found
    | some value => exact absurd rfl (absent _ (get?_mem found))
  | cons entry rest ih => rw [List.cons_append, get?, get?, ih]

theorem get?_ofList_append (entries more : List (String × α)) (name : String) :
    get? name (Members.ofList (entries ++ more)) =
      (get? name (Members.ofList more)).or (get? name (Members.ofList entries)) := by
  induction more using List.reverseRecOn with
  | nil =>
    rw [List.append_nil]
    rfl
  | append_singleton more last ih =>
    rw [← List.append_assoc, ofList_snoc, ofList_snoc, get?_insert, get?_insert, ih]
    split <;> rfl

theorem Ascending.keys_nodup {members : Members α} (sorted : Ascending members) :
    (members.map Prod.fst).Nodup :=
  List.pairwise_map.mpr (sorted.imp fun below => String.ne_of_lt below)

theorem Ascending.mem_iff {members : Members α} (sorted : Ascending members) (entry : String × α) :
    entry ∈ members ↔ get? entry.1 members = some entry.2 :=
  ⟨get?_of_mem sorted.keys_nodup, get?_mem⟩

theorem Ascending.ext {members others : Members α} (sorted : Ascending members) (same : Ascending others)
    (agree : ∀ name, get? name members = get? name others) : members = others := by
  refine sorted.eq_of_perm same ((List.perm_ext_iff_of_nodup ?_ ?_).mpr fun entry => ?_)
  · exact sorted.keys_nodup.of_map _
  · exact same.keys_nodup.of_map _
  · rw [sorted.mem_iff, same.mem_iff, agree]

theorem ofList_covered {name : String} {members : Members α} (sorted : Ascending members)
    (present : members.contains name = true) (value : α) :
    Members.ofList ((name, value) :: members) = members := by
  refine (ofList_ascending _).ext sorted fun other => ?_
  rw [← List.singleton_append, get?_ofList_append, sorted.ofList]
  cases found : get? other members with
  | some old => rfl
  | none =>
    have apart : name ≠ other := by
      rintro rfl
      rw [contains, found] at present
      cases present
    exact if_neg apart

theorem filter_key {name : String} {members : Members α} {value : α} (sorted : Ascending members)
    (found : get? name members = some value) : (members.filter fun entry => entry.1 = name) = [(name, value)] := by
  induction members with
  | nil => cases found
  | cons entry rest ih =>
    obtain ⟨key, first⟩ := entry
    obtain ⟨below, later⟩ := List.pairwise_cons.mp sorted
    rw [get?] at found
    split at found
    · rename_i same
      cases found
      have none : (rest.filter fun entry => entry.1 = name) = [] :=
        List.filter_eq_nil_iff.mpr fun entry among here =>
          String.ne_of_lt (below entry among) (same.trans (of_decide_eq_true here).symm)
      rw [List.filter_cons_of_pos (by simpa using same), none, same]
    · rename_i other
      rw [List.filter_cons_of_neg (by simpa using other), ih later found]

theorem ofList_head (name : String) (value : α) (entries : List (String × α)) :
    (Members.ofList ((name, value) :: entries)).contains name = true := by
  have first : get? name (Members.ofList [(name, value)]) = some value := if_pos rfl
  rw [contains, ← List.singleton_append, get?_ofList_append, first]
  cases get? name (Members.ofList entries) <;> rfl

theorem get?_none_iff {name : String} {members : Members α} :
    get? name members = none ↔ ∀ entry ∈ members, entry.1 ≠ name := by
  refine ⟨get?_absent, fun absent => ?_⟩
  cases found : get? name members with
  | none => rfl
  | some value => exact absurd rfl (absent _ (get?_mem found))

theorem ofList_end_iff {front : List (String × α)} {fields : List (String × β)} (apart : (fields.map Prod.fst).Nodup)
    (f g : β → α) : Members.ofList (front ++ mapValues f fields) = Members.ofList (front ++ mapValues g fields) ↔
      ∀ field ∈ fields, f field.2 = g field.2 := by
  have stays : ∀ (h : β → α), ∀ field ∈ fields,
      get? field.1 (Members.ofList (front ++ mapValues h fields)) = some (h field.2) := by
    intro h field among
    have keys : ((mapValues h fields).map Prod.fst).Nodup := by rwa [mapValues_keys]
    have here : (field.1, h field.2) ∈ mapValues h fields := List.mem_map_of_mem among
    rw [get?_ofList_append, get?_ofList keys here, Option.some_or]
  constructor
  · intro same field among
    have left := stays f field among
    rw [same, stays g field among] at left
    exact (Option.some.inj left).symm
  · intro each
    have same : mapValues f fields = mapValues g fields :=
      List.map_congr_left fun field among => congrArg (field.1, ·) (each field among)
    rw [same]

end Members
end PluginBridge
