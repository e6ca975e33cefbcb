import PluginBridge.Proofs.Json.RoundTrip
open PluginBridge.Json.Parser (separated bracketed skipBlank)
namespace PluginBridge
namespace Json

section items
variable {α : Type} {item deeper : Parse α} {close : Char} {fuel : Nat} {read items : List α} {text rest : List Char}

theorem separated_every {fine : α → Prop} (each : ∀ text a rest, item text = some (a, rest) → fine a)
    (before : ∀ a ∈ read, fine a) (found : separated item close fuel read text = some (items, rest)) :
    ∀ a ∈ items, fine a := by
  induction fuel generalizing read text with
  | zero => cases found
  | succ fuel ih =>
    rw [separated] at found
    split at found
    · cases found
    · rename_i a after one
      have extended : ∀ b ∈ a :: read, fine b := List.forall_mem_cons.mpr ⟨each _ _ _ one, before⟩
      split at found
      · cases found
      · split at found
        · exact ih extended found
        · split at found
          · cases found
            exact fun b among => extended b (List.mem_reverse.mp among)
          · cases found

theorem bracketed_every {fine : α → Prop} (each : ∀ text a rest, item text = some (a, rest) → fine a)
    (found : bracketed item close fuel text = some (items, rest)) : ∀ a ∈ items, fine a := by
  rw [bracketed] at found
  split at found
  · cases found
  · split at found
    · cases found
      exact List.forall_mem_nil _
    · exact separated_every each (List.forall_mem_nil _) found

theorem separated_deeper (more : ∀ text found, item text = some found → deeper text = some found)
    (found : separated item close fuel read text = some (items, rest)) :
    separated deeper close fuel read text = some (items, rest) := by
  induction fuel generalizing read text with
  | zero => cases found
  | succ fuel ih =>
    rw [separated] at found ⊢
    split at found
    · cases found
    · rename_i a after one
      rw [more _ _ one]
      simp only
      split at found
      · cases found
      · split at found
        · rename_i comma
          rw [if_pos comma]
          exact ih found
        · rename_i other
          rw [if_neg other]
          exact found

theorem bracketed_deeper (more : ∀ text found, item text = some found → deeper text = some found)
    (found : bracketed item close fuel text = some (items, rest)) :
    bracketed deeper close fuel text = some (items, rest) := by
  rw [bracketed] at found ⊢
  split at found
  · cases found
  · split at found
    · rename_i closed
      rw [if_pos closed]
      exact found
    · rename_i opened
      rw [if_neg opened]
      exact separated_deeper more found

end items

theorem itemsLevels_le {items : List Json} {limit : Nat} :
    itemsLevels items ≤ limit ↔ ∀ item ∈ items, item.levels ≤ limit := by
  induction items with
  | nil => exact ⟨fun _ => List.forall_mem_nil _, fun _ => Nat.zero_le _⟩
  | cons item rest ih => rw [itemsLevels, Nat.max_le, ih, List.forall_mem_cons]

theorem membersLevels_le {members : List (String × Json)} {limit : Nat} :
    membersLevels members ≤ limit ↔ ∀ member ∈ members, member.2.levels ≤ limit := by
  induction members with
  | nil => exact ⟨fun _ => List.forall_mem_nil _, fun _ => Nat.zero_le _⟩
  | cons member rest ih => rw [membersLevels, Nat.max_le, ih, List.forall_mem_cons]

theorem levels_member {members : List (String × Json)} {member : String × Json} (among : member ∈ members) :
    member.2.levels ≤ membersLevels members :=
  membersLevels_le.mp (Nat.le_refl _) member among

theorem member_every {value : String → Parse Json} (fine : Json → Prop) {fuel : Nat} {text rest : List Char}
    {entry : String × Json} (each : ∀ key text a rest, value key text = some (a, rest) → fine a)
    (found : Parser.member value fuel text = some (entry, rest)) : fine entry.2 := by
  rw [Parser.member] at found
  split at found
  · split at found
    · cases found
    · split at found
      · obtain ⟨⟨a, after⟩, here, same⟩ := Option.map_eq_some_iff.mp found
        cases same
        exact each _ _ _ _ here
      · cases found
  · cases found

theorem member_deeper {value deeper : String → Parse Json} {fuel : Nat} {text : List Char}
    {found : (String × Json) × List Char}
    (more : ∀ key text found, value key text = some found → deeper key text = some found)
    (read : Parser.member value fuel text = some found) : Parser.member deeper fuel text = some found := by
  rw [Parser.member] at read ⊢
  split at read
  · split at read
    · cases read
    · split at read
      · obtain ⟨_, here, same⟩ := Option.map_eq_some_iff.mp read
        rw [more _ _ _ here, ← same]
        rfl
      · cases read
  · cases read

theorem value_limited {fuel levels more : Nat} (deep : levels ≤ more) {text : List Char} {found : Json × List Char}
    (read : Parser.value .strict fuel levels text = some found) :
    found.1.levels ≤ levels ∧ Parser.value .strict fuel more text = some found := by
  induction levels using Nat.strongRecOn generalizing more text found with
  | ind levels ih =>
    -- Lists and objects use up one level each; everything else is read alike at every level.
    rw [Parser.value] at read ⊢
    split at read
    · cases read
      exact ⟨Nat.zero_le _, rfl⟩
    · cases read
      exact ⟨Nat.zero_le _, rfl⟩
    · cases read
      exact ⟨Nat.zero_le _, rfl⟩
    · obtain ⟨_, _, same⟩ := Option.map_eq_some_iff.mp read
      cases same
      exact ⟨Nat.zero_le _, read⟩
    · cases levels with
      | zero => cases read
      | succ inner =>
        obtain ⟨more, rfl⟩ : ∃ less, more = less + 1 := ⟨more - 1, by omega⟩
        have within : inner ≤ more := Nat.le_of_succ_le_succ deep
        obtain ⟨⟨items, rest⟩, here, same⟩ := Option.map_eq_some_iff.mp read
        cases same
        have each := fun text found => @ih inner (Nat.lt_succ_self _) more within text found
        have shallow : ∀ item ∈ items, item.levels ≤ inner :=
          bracketed_every (fun text a rest one => (each text (a, rest) one).1) here
        refine ⟨Nat.succ_le_succ (itemsLevels_le.mpr shallow), ?_⟩
        simp only [bracketed_deeper (fun text found one => (each text found one).2) here]
        rfl
    · cases levels with
      | zero => cases read
      | succ inner =>
        obtain ⟨more, rfl⟩ : ∃ less, more = less + 1 := ⟨more - 1, by omega⟩
        have within : inner ≤ more := Nat.le_of_succ_le_succ deep
        obtain ⟨⟨entries, rest⟩, here, same⟩ := Option.map_eq_some_iff.mp read
        cases same
        have each := fun text found => @ih inner (Nat.lt_succ_self _) more within text found
        have lower : ∀ (_ : String) text a rest, Parser.value .strict fuel inner text = some (a, rest) → a.levels ≤ inner :=
          fun _ text a rest one => (each text (a, rest) one).1
        have shallow : ∀ entry ∈ entries, entry.2.levels ≤ inner :=
          bracketed_every (fun text entry rest one => member_every (·.levels ≤ inner) lower one) here
        have reads : bracketed (Parser.member (fun _ => Parser.value .strict fuel more) fuel) _ _ _ = _ :=
          bracketed_deeper (fun text found one => member_deeper (fun _ text found one => (each text found one).2) one) here
        refine ⟨Nat.succ_le_succ (membersLevels_le.mpr fun entry among => shallow _ (Members.ofList_mem among)), ?_⟩
        simp only [reads]
        rfl
    · obtain ⟨_, _, same⟩ := Option.map_eq_some_iff.mp read
      cases same
      exact ⟨Nat.zero_le _, read⟩

mutual

theorem reread_levels : ∀ json : Json, json.reread.levels = json.levels
  | .null => rfl
  | .bool _ => rfl
  | .number _ => rfl
  | .string _ => rfl
  | .array items => congrArg (· + 1) (itemsReread_levels items)
  | .object members => congrArg (· + 1) (membersReread_levels members)

theorem itemsReread_levels : ∀ items : List Json, itemsLevels (itemsReread items) = itemsLevels items
  | [] => rfl
  | item :: rest => congrArg₂ max (reread_levels item) (itemsReread_levels rest)

theorem membersReread_levels : ∀ members : List (String × Json), membersLevels (membersReread members) = membersLevels members
  | [] => rfl
  | (_, value) :: rest => congrArg₂ max (reread_levels value) (membersReread_levels rest)

end

theorem parse_refused {json : Json} {text : List Char} {levels : Nat}
    (reads : Reads (Parser.value .strict (text.length + 1) levels) json text)
    (deep : maxLevels < json.levels) (higher : maxLevels ≤ levels) : parse? (String.ofList text) = none := by
  by_contra accepted
  obtain ⟨found, read⟩ := Option.ne_none_iff_exists'.mp accepted
  rw [parse?, parseWithin, Parser.whole, String.length_ofList, String.toList_ofList] at read
  split at read
  · rename_i a rest within
    obtain ⟨shallow, further⟩ := value_limited higher within
    have whole := reads [] .nil
    rw [List.append_nil, further] at whole
    cases whole
    exact absurd deep (Nat.not_lt.mpr shallow)
  · cases read

theorem parse_deep {json : Json} (legible : Legible json) (deep : maxLevels < json.levels) :
    parse? json.render = none :=
  parse_refused (value_reads legible (Nat.le_refl _) (Nat.lt_succ_self _)) (json.reread_levels.symm ▸ deep)
    (Nat.le_of_lt deep)

theorem ofEntries_depth {fields : List (String × Json)} (apart : (fields.map Prod.fst).Nodup) :
    (ofEntries fields).levels = membersLevels fields + 1 := by
  have same := Members.ofList_perm apart
  refine congrArg (· + 1) (Nat.le_antisymm ?_ ?_)
  · exact membersLevels_le.mpr fun entry among => levels_member (same.mem_iff.mp among)
  · exact membersLevels_le.mpr fun entry among => levels_member (same.mem_iff.mpr among)

theorem parse_fields_deep {fields : List (String × Json)} (legible : MembersLegible fields)
    (apart : (fields.map Prod.fst).Nodup) (deep : maxLevels ≤ membersLevels fields) :
    parse? (renderFields fields) = none := by
  have each : List.Forall₂ (Reads (Parser.member (fun _ => Parser.value .strict _ (membersLevels fields)) _))
      (membersReread fields) (fields.map memberChars) :=
    @members_read (('{' :: membersChars fields ++ ['}']).length + 1) fields _ legible (Nat.le_refl _)
      fun part among => by
        have short := commas_part among
        simp only [membersChars_commas, List.length_append, List.length_cons]
        omega
  have keys : ((membersReread fields).map Prod.fst).Nodup := by
    rwa [membersReread_eq, Members.mapValues_keys]
  refine parse_refused (object_reads each (Nat.lt_succ_self _)) ?_ (Nat.le_succ_of_le deep)
  rw [ofEntries_depth keys, membersReread_levels]
  exact Nat.lt_succ_of_le deep

end Json
end PluginBridge
