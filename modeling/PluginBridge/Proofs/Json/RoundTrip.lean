import PluginBridge.Proofs.Json.Decimals
namespace PluginBridge

namespace JsonNumber

-- A number whose text leads back to it: an integer of 64 bits, with or without sign, or a
-- finite double of which this is known.
def Readable : JsonNumber → Prop
  | .integer n => -0x8000000000000000 ≤ n ∧ n < 0x10000000000000000
  | .float x => x.isFinite = true ∧ x.SurvivesText

-- A number of the library: an integer of 64 bits or any finite double. Its text leads to some number.
def Legible : JsonNumber → Prop
  | .integer n => -0x8000000000000000 ≤ n ∧ n < 0x10000000000000000
  | .float x => x.isFinite = true

def reread : JsonNumber → JsonNumber
  | .integer n => .integer n
  | .float x =>
    match Json.parse? (Json.number (.float x)).render with
    | some (.number n) => n
    | _ => .float x

theorem Readable.legible {n : JsonNumber} (readable : n.Readable) : n.Legible ∧ n.reread = n := by
  cases n with
  | integer n => exact ⟨readable, rfl⟩
  | float x =>
    obtain ⟨finite, survives⟩ := readable
    rw [Binary64.SurvivesText] at survives
    exact ⟨finite, by rw [reread, survives]⟩

end JsonNumber

open Json.Parser (isBlank skipBlank stringBody Stops separated bracketed)
namespace Json

mutual

def levels : Json → Nat
  | .array items => itemsLevels items + 1
  | .object members => membersLevels members + 1
  | _ => 0

def itemsLevels : List Json → Nat
  | [] => 0
  | item :: rest => max item.levels (itemsLevels rest)

def membersLevels : List (String × Json) → Nat
  | [] => 0
  | (_, value) :: rest => max value.levels (membersLevels rest)

end

mutual

-- The values that survive being written and read: their numbers do, and their members stand
-- in the order in which a reader collects them.
def Readable : Json → Prop
  | .number n => n.Readable
  | .array items => ItemsReadable items
  | .object members => Members.Ascending members ∧ MembersReadable members
  | _ => True

def ItemsReadable : List Json → Prop
  | [] => True
  | item :: rest => Readable item ∧ ItemsReadable rest

def MembersReadable : List (String × Json) → Prop
  | [] => True
  | (_, value) :: rest => Readable value ∧ MembersReadable rest

end

mutual

def Legible : Json → Prop
  | .number n => n.Legible
  | .array items => ItemsLegible items
  | .object members => Members.Ascending members ∧ MembersLegible members
  | _ => True

def ItemsLegible : List Json → Prop
  | [] => True
  | item :: rest => Legible item ∧ ItemsLegible rest

def MembersLegible : List (String × Json) → Prop
  | [] => True
  | (_, value) :: rest => Legible value ∧ MembersLegible rest

end

mutual

def reread : Json → Json
  | .number n => .number n.reread
  | .array items => .array (itemsReread items)
  | .object members => .object (membersReread members)
  | json => json

def itemsReread : List Json → List Json
  | [] => []
  | item :: rest => item.reread :: itemsReread rest

def membersReread : List (String × Json) → List (String × Json)
  | [] => []
  | (key, value) :: rest => (key, value.reread) :: membersReread rest

end

mutual

theorem Readable.legible : ∀ {json : Json}, json.Readable → json.Legible ∧ json.reread = json
  | .null, _ => ⟨trivial, rfl⟩
  | .bool _, _ => ⟨trivial, rfl⟩
  | .number _, readable =>
    have ⟨legible, same⟩ := JsonNumber.Readable.legible readable
    ⟨legible, congrArg number same⟩
  | .string _, _ => ⟨trivial, rfl⟩
  | .array _, readable =>
    have ⟨legible, same⟩ := items_legible readable
    ⟨legible, congrArg array same⟩
  | .object _, ⟨sorted, readable⟩ =>
    have ⟨legible, same⟩ := members_legible readable
    ⟨⟨sorted, legible⟩, congrArg object same⟩

theorem items_legible : ∀ {items : List Json}, ItemsReadable items → ItemsLegible items ∧ itemsReread items = items
  | [], _ => ⟨trivial, rfl⟩
  | _ :: _, ⟨first, later⟩ =>
    have ⟨one, same⟩ := Readable.legible first
    have ⟨others, rest⟩ := items_legible later
    ⟨⟨one, others⟩, congrArg₂ List.cons same rest⟩

theorem members_legible : ∀ {members : List (String × Json)}, MembersReadable members →
    MembersLegible members ∧ membersReread members = members
  | [], _ => ⟨trivial, rfl⟩
  | (key, _) :: _, ⟨first, later⟩ =>
    have ⟨one, same⟩ := Readable.legible first
    have ⟨others, rest⟩ := members_legible later
    ⟨⟨one, others⟩, congrArg₂ List.cons (congrArg (key, ·) same) rest⟩

end

theorem membersReread_eq (members : List (String × Json)) : membersReread members = Members.mapValues reread members := by
  induction members with
  | nil => rfl
  | cons member rest ih =>
    obtain ⟨key, value⟩ := member
    rw [membersReread, ih]
    rfl

def commas : List (List Char) → List Char
  | [] => []
  | [part] => part
  | part :: rest => part ++ ',' :: commas rest

theorem commas_cons (part second : List Char) (rest : List (List Char)) :
    commas (part :: second :: rest) = part ++ ',' :: commas (second :: rest) := rfl

theorem itemsChars_commas (items : List Json) : itemsChars items = commas (items.map chars) := by
  induction items with
  | nil => rfl
  | cons item rest ih =>
    cases rest with
    | nil => rfl
    | cons second rest =>
      rw [List.map_cons, List.map_cons, commas_cons, ← List.map_cons, ← ih]
      rfl

def memberChars (member : String × Json) : List Char := stringChars member.1 ++ ':' :: member.2.chars

theorem membersChars_commas (members : List (String × Json)) :
    membersChars members = commas (members.map memberChars) := by
  induction members with
  | nil => rfl
  | cons member rest ih =>
    cases rest with
    | nil => rfl
    | cons second rest =>
      rw [List.map_cons, List.map_cons, commas_cons, ← List.map_cons, ← ih]
      rfl

theorem commas_count (parts : List (List Char)) : parts.length ≤ (commas parts).length + 1 := by
  induction parts with
  | nil => simp
  | cons part rest ih =>
    cases rest with
    | nil => simp
    | cons second rest =>
      simp only [commas_cons, List.length_append, List.length_cons] at ih ⊢
      omega

theorem commas_part {part : List Char} {parts : List (List Char)} (among : part ∈ parts) :
    part.length ≤ (commas parts).length := by
  induction parts with
  | nil => cases among
  | cons first rest ih =>
    cases rest with
    | nil =>
      cases List.mem_singleton.mp among
      rfl
    | cons second rest =>
      simp only [commas_cons, List.length_append, List.length_cons] at ih ⊢
      rcases List.mem_cons.mp among with rfl | later
      · omega
      · have inner := ih later
        omega

section lists
variable {α : Type} {item : Parse α} {close : Char}

def Reads (item : Parse α) (a : α) (part : List Char) : Prop :=
  ∀ rest, Stops rest → item (part ++ rest) = some (a, rest)

theorem separated_commas (closing : isBlank close = false ∧ close ≠ ',' ∧ ∀ rest, Stops (close :: rest))
    {items : List α} {parts : List (List Char)} (each : List.Forall₂ (Reads item) items parts)
    (some : parts ≠ []) {fuel : Nat} (enough : parts.length ≤ fuel) (read : List α) (rest : List Char) :
    separated item close fuel read (commas parts ++ close :: rest) =
      .some (read.reverse ++ items, rest) := by
  induction each generalizing fuel read with
  | nil => exact absurd rfl some
  | cons first later ih =>
    rename_i a part items parts
    obtain ⟨fuel, rfl⟩ : ∃ less, fuel = less + 1 := ⟨fuel - 1, by simp at enough; omega⟩
    cases parts with
    | nil =>
      cases later
      simp only [commas, separated, first _ (closing.2.2 rest), skipBlank_plain closing.1,
        if_neg closing.2.1]
      simp
    | cons second parts =>
      have comma : Stops (',' :: (commas (second :: parts) ++ close :: rest)) := .cons (by decide)
      have blank : isBlank ',' = false := rfl
      rw [commas_cons, List.append_assoc, List.cons_append]
      simp only [separated, first _ comma, skipBlank_plain blank, if_true]
      rw [ih (List.cons_ne_nil _ _) (by simpa using enough) (a :: read)]
      simp

theorem bracketed_commas (closing : isBlank close = false ∧ close ≠ ',' ∧ ∀ rest, Stops (close :: rest))
    (bracket : close = ']' ∨ close = '}') {items : List α} {parts : List (List Char)}
    (each : List.Forall₂ (Reads item) items parts) (begins : ∀ part ∈ parts, Begins part)
    {fuel : Nat} (enough : parts.length ≤ fuel) (rest : List Char) :
    bracketed item close fuel (commas parts ++ close :: rest) = some (items, rest) := by
  cases each with
  | nil => simp [bracketed, commas, skipBlank_plain closing.1]
  | cons first later =>
    rename_i a part items parts
    obtain ⟨c, tail, same, plain, square, brace⟩ := begins part List.mem_cons_self
    have apart : c ≠ close := by rcases bracket with rfl | rfl <;> assumption
    have front : ∃ tail, commas (part :: parts) ++ close :: rest = c :: tail := by
      cases parts with
      | nil => exact ⟨_, by rw [commas, same]; rfl⟩
      | cons second parts => exact ⟨_, by rw [commas_cons, same]; rfl⟩
    obtain ⟨tail, front⟩ := front
    have whole := separated_commas closing (.cons first later) (List.cons_ne_nil _ _) enough [] rest
    rw [front] at whole ⊢
    simpa only [bracketed, skipBlank_plain plain, if_neg apart, List.reverse_nil,
      List.nil_append] using whole

end lists

theorem number_read {n : JsonNumber} (legible : n.Legible) :
    Parser.number .strict (numberChars n) = some (n.reread, []) ∧
      ∃ c rest, numberChars n = c :: rest ∧ isNumeral c = true := by
  cases n with
  | integer n =>
    have read := Parser.number_integer legible.1 legible.2
    refine ⟨read, ?_⟩
    cases written : numberChars (.integer n) with
    | nil =>
      rw [written] at read
      cases read
    | cons c rest => exact ⟨c, rest, rfl, integerChars_numeral n c (written ▸ List.mem_cons_self)⟩
  | float x =>
    obtain ⟨m, read⟩ := floatChars_read legible
    obtain ⟨first, parsed⟩ := number_parsed legible read
    refine ⟨?_, first⟩
    rw [JsonNumber.reread, parsed]
    exact read

theorem itemsReadable {items : List Json} (each : ∀ item ∈ items, Readable item) : ItemsReadable items := by
  induction items with
  | nil => trivial
  | cons first rest ih =>
    obtain ⟨here, others⟩ := List.forall_mem_cons.mp each
    exact ⟨here, ih others⟩

theorem membersReadable {members : List (String × Json)} (each : ∀ entry ∈ members, Readable entry.2) :
    MembersReadable members := by
  induction members with
  | nil => trivial
  | cons first rest ih =>
    obtain ⟨here, others⟩ := List.forall_mem_cons.mp each
    exact ⟨here, ih others⟩

theorem itemsLegible {items : List Json} (each : ∀ item ∈ items, Legible item) : ItemsLegible items := by
  induction items with
  | nil => trivial
  | cons first rest ih =>
    obtain ⟨here, others⟩ := List.forall_mem_cons.mp each
    exact ⟨here, ih others⟩

theorem membersLegible {members : List (String × Json)} (each : ∀ entry ∈ members, Legible entry.2) :
    MembersLegible members := by
  induction members with
  | nil => trivial
  | cons first rest ih =>
    obtain ⟨here, others⟩ := List.forall_mem_cons.mp each
    exact ⟨here, ih others⟩

theorem itemsLegible_mem {items : List Json} (legible : ItemsLegible items) {item : Json}
    (among : item ∈ items) : Legible item := by
  induction items with
  | nil => cases among
  | cons first rest ih =>
    rcases List.mem_cons.mp among with rfl | later
    · exact legible.1
    · exact ih legible.2 later

theorem chars_begin {json : Json} (legible : Legible json) : Begins json.chars := by
  cases json with
  | null => exact ⟨'n', _, rfl, by decide⟩
  | bool value => cases value with
    | true => exact ⟨'t', _, rfl, by decide⟩
    | false => exact ⟨'f', _, rfl, by decide⟩
  | number n =>
    obtain ⟨_, c, rest, written, numeral⟩ := number_read legible
    obtain ⟨blank, _, _, _, _, _, _, square, brace⟩ := isNumeral_plain numeral
    exact ⟨c, rest, written, blank, square, brace⟩
  | string s => exact ⟨'"', _, rfl, by decide⟩
  | array items => exact ⟨'[', _, rfl, by decide⟩
  | object members => exact ⟨'{', _, rfl, by decide⟩

theorem memberChars_begin (member : String × Json) : Begins (memberChars member) :=
  ⟨'"', _, rfl, by decide⟩

theorem stringBody_text {s : String} {fuel : Nat} (enough : (stringChars s).length < fuel)
    (rest : List Char) : stringBody .strict fuel [] (s.toList.flatMap escapeChar ++ '"' :: rest) =
      some (s, rest) := by
  have least : ∀ chars : List Char, chars.length ≤ (chars.flatMap escapeChar).length := by
    intro chars
    induction chars with
    | nil => simp
    | cons c chars ih =>
      have one : 1 ≤ (escapeChar c).length := by
        unfold escapeChar
        split_ifs <;> simp
      rw [List.flatMap_cons, List.length_append, List.length_cons]
      omega
  have bound := least s.toList
  simp only [stringChars, List.length_append, List.length_cons] at enough
  rw [Parser.stringBody_chars (by omega), List.reverse_nil, List.nil_append, String.ofList_toList]

theorem member_reads {value : Parse Json} {entry : String × Json} {found : Json} {fuel : Nat}
    (enough : (memberChars entry).length < fuel) (reads : Reads value found entry.2.chars) :
    Reads (Parser.member (fun _ => value) fuel) (entry.1, found) (memberChars entry) := by
  intro rest stops
  have colon : isBlank ':' = false := rfl
  have quote : isBlank '"' = false := rfl
  have key : (stringChars entry.1).length < fuel := by
    rw [memberChars, List.length_append] at enough
    omega
  rw [memberChars, stringChars]
  simp only [List.cons_append, List.append_assoc, List.nil_append, Parser.member, skipBlank_plain quote,
    stringBody_text key, skipBlank_plain colon, reads rest stops, Option.map_some]

theorem object_reads {members found : List (String × Json)} {fuel inner : Nat}
    (each : List.Forall₂ (Reads (Parser.member (fun _ => Parser.value .strict fuel inner) fuel)) found
      (members.map memberChars))
    (enough : ('{' :: membersChars members ++ ['}']).length < fuel) :
    Reads (Parser.value .strict fuel (inner + 1)) (.ofEntries found)
      ('{' :: membersChars members ++ ['}']) := by
  intro rest _
  have brace : isBlank '{' = false := rfl
  simp only [membersChars_commas, List.length_append, List.length_cons, List.length_nil] at enough
  have count := commas_count (members.map memberChars)
  have begins : ∀ part ∈ members.map memberChars, Begins part := by
    intro part among
    obtain ⟨member, _, rfl⟩ := List.mem_map.mp among
    exact memberChars_begin member
  have all := bracketed_commas ⟨rfl, by decide, fun _ => .cons (by decide)⟩ (.inr rfl) each begins
    (show (members.map memberChars).length ≤ fuel by omega) rest
  rw [Parser.value]
  simp only [membersChars_commas, List.cons_append, List.append_assoc, List.nil_append,
    skipBlank_plain brace, all, Option.map_some]

mutual

theorem value_reads {fuel : Nat} : ∀ {json : Json} {levels : Nat}, Legible json →
    json.levels ≤ levels → json.chars.length < fuel →
      Reads (Parser.value .strict fuel levels) json.reread json.chars
  | .null, _, _, _, _ => fun _ _ => by rw [Parser.value]; rfl
  | .bool true, _, _, _, _ => fun _ _ => by rw [Parser.value]; rfl
  | .bool false, _, _, _, _ => fun _ _ => by rw [Parser.value]; rfl
  | .number n, levels, legible, _, _ => by
    intro rest stops
    obtain ⟨read, c, tail, written, numeral⟩ := number_read legible
    have longer := Parser.number_append stops read
    rw [chars, written] at *
    rw [List.cons_append, value_numeral numeral, ← List.cons_append, longer]
    rfl
  | .string s, levels, _, _, enough => by
    intro rest _
    have quote : isBlank '"' = false := rfl
    rw [chars, stringChars] at *
    rw [Parser.value]
    simp only [List.cons_append, List.append_assoc, List.nil_append, skipBlank_plain quote,
      stringBody_text enough, Option.map_some, reread]
  | .array items, 0, _, deep, _ => by simp [levels] at deep
  | .array items, inner + 1, legible, deep, enough => by
    intro rest _
    have bracket : isBlank '[' = false := rfl
    simp only [chars, itemsChars_commas, List.length_append, List.length_cons, List.length_nil] at enough
    have count := commas_count (items.map chars)
    have each : List.Forall₂ (Reads (Parser.value .strict fuel inner)) (itemsReread items) (items.map chars) :=
      items_read legible (Nat.le_of_succ_le_succ deep) fun part among => by
        have short := commas_part among
        omega
    have begins : ∀ part ∈ items.map chars, Begins part := by
      intro part among
      obtain ⟨item, inside, rfl⟩ := List.mem_map.mp among
      exact chars_begin (itemsLegible_mem legible inside)
    have all := bracketed_commas ⟨rfl, by decide, fun _ => .cons (by decide)⟩ (.inl rfl) each begins
      (show (items.map chars).length ≤ fuel by omega) rest
    rw [Parser.value]
    simp only [chars, itemsChars_commas, List.cons_append, List.append_assoc, List.nil_append,
      skipBlank_plain bracket, all, Option.map_some, reread]
  | .object members, 0, _, deep, _ => by simp [levels] at deep
  | .object members, inner + 1, ⟨sorted, legible⟩, deep, enough => by
    have each : List.Forall₂ (Reads (Parser.member (fun _ => Parser.value .strict fuel inner) fuel))
        (membersReread members) (members.map memberChars) :=
      members_read legible (Nat.le_of_succ_le_succ deep) fun part among => by
        have short := commas_part among
        simp only [chars, membersChars_commas, List.length_append, List.length_cons] at enough
        omega
    have read := object_reads each enough
    rwa [ofEntries, membersReread_eq, Members.ofList_map, sorted.ofList, ← membersReread_eq] at read

theorem items_read {fuel : Nat} : ∀ {items : List Json} {levels : Nat}, ItemsLegible items →
    itemsLevels items ≤ levels → (∀ part ∈ items.map chars, part.length < fuel) →
      List.Forall₂ (Reads (Parser.value .strict fuel levels)) (itemsReread items) (items.map chars)
  | [], _, _, _, _ => .nil
  | _ :: _, _, ⟨first, later⟩, deep, enough =>
    .cons (value_reads first (Nat.le_trans (Nat.le_max_left _ _) deep) (enough _ List.mem_cons_self))
      (items_read later (Nat.le_trans (Nat.le_max_right _ _) deep) fun part among =>
        enough part (List.mem_cons_of_mem _ among))

theorem members_read {fuel : Nat} : ∀ {members : List (String × Json)} {levels : Nat},
    MembersLegible members → membersLevels members ≤ levels →
      (∀ part ∈ members.map memberChars, part.length < fuel) →
        List.Forall₂ (Reads (Parser.member (fun _ => Parser.value .strict fuel levels) fuel)) (membersReread members)
          (members.map memberChars)
  | [], _, _, _, _ => .nil
  | (key, value) :: _, _, ⟨first, later⟩, deep, enough => by
    have short : (memberChars (key, value)).length < fuel := enough _ List.mem_cons_self
    have inner : value.chars.length < fuel := by
      simp only [memberChars, List.length_append, List.length_cons] at short
      omega
    exact .cons (member_reads short (value_reads first (Nat.le_trans (Nat.le_max_left _ _) deep) inner))
      (members_read later (Nat.le_trans (Nat.le_max_right _ _) deep) fun part among =>
        enough part (List.mem_cons_of_mem _ among))

end

theorem parse_before {json : Json} {text rest : List Char} (stops : Stops rest) (blank : skipBlank rest = [])
    (reads : Reads (Parser.value .strict ((text ++ rest).length + 1) maxLevels) json text) :
    parse? (String.ofList (text ++ rest)) = some json := by
  have read := reads rest stops
  rw [parse?, parseWithin, Parser.whole, String.length_ofList, String.toList_ofList, read]
  simp only [blank, List.isEmpty_nil, if_true]

theorem parse_whole {json : Json} {text : List Char}
    (reads : Reads (Parser.value .strict (text.length + 1) maxLevels) json text) :
    parse? (String.ofList text) = some json := by
  have read := @parse_before json text [] .nil rfl
  rw [List.append_nil] at read
  exact read reads

theorem parse_legible {json : Json} (legible : Legible json) (shallow : json.levels ≤ maxLevels) :
    parse? json.render = some json.reread :=
  parse_whole (value_reads legible shallow (Nat.lt_succ_self _))

theorem parse_render {json : Json} (readable : Readable json) (shallow : json.levels ≤ maxLevels) :
    parse? json.render = some json := by
  obtain ⟨legible, same⟩ := readable.legible
  rw [parse_legible legible shallow, same]

theorem parse_fields_before {fields : List (String × Json)} {rest : List Char} (legible : MembersLegible fields)
    (shallow : membersLevels fields < maxLevels) (stops : Stops rest) (blank : skipBlank rest = []) :
    parse? (renderFields fields ++ String.ofList rest) = some (.ofEntries (membersReread fields)) := by
  have each : List.Forall₂ (Reads (Parser.member (fun _ => Parser.value .strict _ 126) _)) (membersReread fields)
      (fields.map memberChars) :=
    @members_read (('{' :: membersChars fields ++ ['}'] ++ rest).length + 1) fields 126 legible
      (Nat.le_of_lt_succ shallow) fun part among => by
        have short := commas_part among
        simp only [membersChars_commas, List.length_append, List.length_cons]
        omega
  rw [renderFields, ← String.ofList_append]
  exact parse_before stops blank (object_reads each (by simp only [List.length_append]; omega))

theorem parse_fields {fields : List (String × Json)} (legible : MembersLegible fields)
    (shallow : membersLevels fields < maxLevels) :
    parse? (renderFields fields) = some (.ofEntries (membersReread fields)) := by
  have read := parse_fields_before legible shallow .nil rfl
  rwa [String.ofList_nil, String.append_empty] at read

theorem parse_renderFields {fields : List (String × Json)} (readable : MembersReadable fields)
    (shallow : membersLevels fields < maxLevels) : parse? (renderFields fields) = some (.ofEntries fields) := by
  obtain ⟨legible, same⟩ := members_legible readable
  rw [parse_fields legible shallow, same]

end Json
end PluginBridge
