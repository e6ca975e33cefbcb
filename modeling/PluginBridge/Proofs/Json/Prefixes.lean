import PluginBridge.Proofs.Json.Values
namespace PluginBridge

namespace Json

-- Where a place of a text is: between values, in a string, or behind the backslash of an escape.
inductive Spot where
  | between
  | quoted
  | escaped
deriving DecidableEq

structure Place where
  depth : Int
  spot : Spot

def isMark (c : Char) : Bool := c == '"' || c == '[' || c == '{' || c == ']' || c == '}'

theorem unmarked {text : List Char} (none : text.any isMark = false) : ∀ c ∈ text, isMark c = false :=
  fun c among => Bool.eq_false_iff.mpr (List.any_eq_false.mp none c among)

def Place.step (place : Place) (c : Char) : Place :=
  match place.spot with
  | .between =>
    if c = '"' then ⟨place.depth, .quoted⟩
    else if c = '[' ∨ c = '{' then ⟨place.depth + 1, .between⟩
    else if c = ']' ∨ c = '}' then ⟨place.depth - 1, .between⟩
    else place
  | .quoted =>
    if c = '"' then ⟨place.depth, .between⟩
    else if c = '\\' then ⟨place.depth, .escaped⟩
    else place
  | .escaped => ⟨place.depth, .quoted⟩

def Place.after (place : Place) (text : List Char) : Place := text.foldl step place

-- The text leads from the one spot to the other and opens so many brackets more than it closes.
def Leads (text : List Char) (first last : Spot) (opened : Int) : Prop :=
  ∀ depth, Place.after ⟨depth, first⟩ text = ⟨depth + opened, last⟩

namespace Leads
variable {text more : List Char} {first middle last : Spot} {opened further : Int} {c : Char}

theorem nil (spot : Spot) : Leads [] spot spot 0 := fun depth => by
  rw [Int.add_zero]
  rfl

theorem append (one : Leads text first middle opened) (two : Leads more middle last further) :
    Leads (text ++ more) first last (opened + further) := by
  intro depth
  rw [Place.after, List.foldl_append]
  change Place.after (Place.after _ text) more = _
  rw [one depth, two, Int.add_assoc]

theorem plain (unmarked : isMark c = false) : Leads [c] .between .between 0 := by
  simp only [isMark, Bool.or_eq_false_iff, beq_eq_false_iff_ne] at unmarked
  obtain ⟨⟨⟨⟨quote, bracket⟩, brace⟩, closing⟩, end_⟩ := unmarked
  intro depth
  simp [Place.after, Place.step, quote, bracket, brace, closing, end_]

theorem inner (quote : c ≠ '"') (backslash : c ≠ '\\') : Leads [c] .quoted .quoted 0 := by
  intro depth
  simp [Place.after, Place.step, quote, backslash]

theorem backslash : Leads ['\\'] .quoted .escaped 0 := by
  intro depth
  simp [Place.after, Place.step]

theorem behind (c : Char) : Leads [c] .escaped .quoted 0 := by
  intro depth
  simp [Place.after, Place.step]

theorem escaped (c : Char) : Leads ['\\', c] .quoted .quoted 0 := backslash.append (behind c)

theorem quote : Leads ['"'] .between .quoted 0 ∧ Leads ['"'] .quoted .between 0 := by
  constructor <;> intro depth <;> simp [Place.after, Place.step]

theorem opening (bracket : c = '[' ∨ c = '{') : Leads [c] .between .between 1 := by
  rcases bracket with rfl | rfl <;> intro depth <;> rfl

theorem closing (bracket : c = ']' ∨ c = '}') : Leads [c] .between .between (-1) := by
  rcases bracket with rfl | rfl <;> intro depth <;> rfl

theorem all (each : ∀ c ∈ text, Leads [c] first first 0) : Leads text first first 0 := by
  induction text with
  | nil => exact nil first
  | cons c rest ih =>
    obtain ⟨here, others⟩ := List.forall_mem_cons.mp each
    exact here.append (ih others)

end Leads

def Takes (text rest : List Char) (first last : Spot) (opened : Int) : Prop :=
  ∃ taken, text = taken ++ rest ∧ Leads taken first last opened

namespace Takes
variable {text middle rest : List Char} {first spot last : Spot} {opened further : Int} {c : Char}

theorem refl (text : List Char) (spot : Spot) : Takes text text spot spot 0 := ⟨[], rfl, .nil spot⟩

theorem trans (one : Takes text middle first spot opened) (two : Takes middle rest spot last further) :
    Takes text rest first last (opened + further) := by
  obtain ⟨taken, rfl, leads⟩ := one
  obtain ⟨more, rfl, goes⟩ := two
  exact ⟨taken ++ more, by rw [List.append_assoc], leads.append goes⟩

theorem front {taken : List Char} (leads : Leads taken first last opened) (rest : List Char) :
    Takes (taken ++ rest) rest first last opened := ⟨taken, rfl, leads⟩

end Takes

namespace Parser
open Takes
variable {text rest : List Char} {fuel : Nat}

theorem isBlank_unmarked {c : Char} (blank : isBlank c = true) : isMark c = false := by
  simp only [isBlank, Bool.or_eq_true, beq_iff_eq] at blank
  rcases blank with ((rfl | rfl) | rfl) | rfl <;> rfl

theorem digit_unmarked {c : Char} (digit : c.isDigit = true) : isMark c = false := by
  have apart : ∀ d : Char, d.isDigit = false → c ≠ d := by
    rintro d other rfl
    rw [digit] at other
    cases other
  simp [isMark, apart '"' rfl, apart '[' rfl, apart '{' rfl, apart ']' rfl, apart '}' rfl]

theorem taken_plain {p : Char → Bool} (unmarked : ∀ c, p c = true → isMark c = false) (text : List Char) :
    Takes text (text.dropWhile p) .between .between 0 :=
  ⟨text.takeWhile p, List.takeWhile_append_dropWhile.symm,
    .all fun c among => .plain (unmarked c (List.mem_takeWhile_imp among))⟩

theorem skipBlank_takes (text : List Char) : Takes text (skipBlank text) .between .between 0 :=
  taken_plain (fun _ => isBlank_unmarked) text

theorem hexValue_inner {c : Char} {n : Nat} (hex : hexValue? c = some n) : Leads [c] .quoted .quoted 0 := by
  refine .inner ?_ ?_ <;>
  · rintro rfl
    cases hex

theorem hexQuad_takes {n : Nat} (read : hexQuad? text = some (n, rest)) : Takes text rest .quoted .quoted 0 := by
  unfold hexQuad? at read
  split at read
  · simp only [Option.bind_eq_bind, Option.bind_eq_some_iff] at read
    obtain ⟨w, one, x, two, y, three, z, four, same⟩ := read
    cases same
    exact front ((((hexValue_inner one).append (hexValue_inner two)).append (hexValue_inner three)).append
      (hexValue_inner four)) _
  · cases read

theorem unicodeEscape_takes {c : Char} (read : unicodeEscape .strict text = some (c, rest)) :
    Takes text rest .quoted .quoted 0 := by
  simp only [unicodeEscape, Option.bind_eq_bind, Option.bind_eq_some_iff] at read
  obtain ⟨⟨unit, behind⟩, quad, read⟩ := read
  have first := hexQuad_takes quad
  simp only [reduceCtorEq, if_false] at read
  split at read
  · cases read
  split at read
  · split at read
    · simp only [Option.bind_eq_some_iff] at read
      obtain ⟨⟨trail, last⟩, again, read⟩ := read
      split at read
      · obtain rfl := (Prod.mk.inj (Option.some.inj read)).2
        exact (first.trans (front (.escaped 'u') _)).trans (hexQuad_takes again)
      · cases read
    · cases read
  · obtain rfl := (Prod.mk.inj (Option.some.inj read)).2
    exact first

theorem stringBody_takes {read : List Char} {s : String} (found : stringBody .strict fuel read text = some (s, rest)) :
    Takes text rest .quoted .between 0 := by
  induction fuel generalizing read text with
  | zero => cases found
  | succ fuel ih =>
    rw [stringBody.eq_def] at found
    simp only at found
    split at found
    · cases found
    · cases found
      exact front Leads.quote.2 _
    · split at found
      · rename_i escape
        exact ((front (.escaped 'u') _).trans (unicodeEscape_takes escape)).trans (ih found)
      · cases found
    · split at found
      · exact (front (.escaped _) _).trans (ih found)
      · cases found
    · rename_i c behind quote _ _
      split at found
      · cases found
      · rename_i proper
        have inner : Leads [c] .quoted .quoted 0 := .inner quote fun backslash => proper (.inr backslash)
        exact (front inner behind).trans (ih found)

theorem digits1_takes {digits : List Char} (read : digits1? text = some (digits, rest)) :
    Takes text rest .between .between 0 := by
  unfold digits1? at read
  split at read
  · cases read
  · cases read
    exact taken_plain (fun _ => digit_unmarked) text

theorem minus_takes (text : List Char) : Takes text (minus text).2 .between .between 0 := by
  unfold minus
  split
  · exact front (.plain rfl) _
  · exact refl text _

theorem fraction_takes {digits : Option (List Char)} (read : fraction? text = some (digits, rest)) :
    Takes text rest .between .between 0 := by
  unfold fraction? at read
  split at read
  · obtain ⟨⟨_, _⟩, one, same⟩ := Option.map_eq_some_iff.mp read
    cases same
    exact (front (.plain rfl) _).trans (digits1_takes one)
  · cases read
    exact refl _ _

theorem exponentSign_takes (text : List Char) : Takes text (exponentSign text).2 .between .between 0 := by
  unfold exponentSign
  split
  · exact front (.plain rfl) _
  · exact front (.plain rfl) _
  · exact refl text _

theorem exponent_takes {exponent : Option (Bool × List Char)} (read : exponent? text = some (exponent, rest)) :
    Takes text rest .between .between 0 := by
  unfold exponent? at read
  split at read
  · rename_i c behind
    split at read
    · rename_i letter
      have unmarked : isMark c = false := by
        rcases letter with rfl | rfl <;> rfl
      obtain ⟨⟨_, _⟩, one, same⟩ := Option.map_eq_some_iff.mp read
      cases same
      exact ((front (.plain unmarked) behind).trans (exponentSign_takes behind)).trans (digits1_takes one)
    · cases read
      exact refl _ _
  · cases read
    exact refl _ _

theorem literal_takes {l : Literal} (read : literal text = some (l, rest)) : Takes text rest .between .between 0 := by
  simp only [literal, Option.bind_eq_bind, Option.bind_eq_some_iff] at read
  obtain ⟨⟨whole, behind⟩, digits, read⟩ := read
  simp only at read
  split at read
  · cases read
  · simp only [Option.bind_eq_some_iff] at read
    obtain ⟨⟨_, _⟩, fraction, ⟨_, _⟩, exponent, same⟩ := read
    cases same
    exact (((minus_takes text).trans (digits1_takes digits)).trans (fraction_takes fraction)).trans
      (exponent_takes exponent)

theorem number_takes {n : JsonNumber} (read : number .strict text = some (n, rest)) :
    Takes text rest .between .between 0 := by
  simp only [number, Option.bind_eq_bind, Option.bind_eq_some_iff] at read
  obtain ⟨⟨l, behind⟩, written, read⟩ := read
  split at read
  · cases read
    exact literal_takes written
  · rename_i tolerant
    cases tolerant
  · cases read

section items
variable {α : Type} {item : Parse α} {close : Char} {read items : List α}
variable (each : ∀ text a rest, item text = some (a, rest) → Takes text rest .between .between 0)
  (closes : close = ']' ∨ close = '}')
include each closes

theorem separated_takes (found : separated item close fuel read text = some (items, rest)) :
    Takes text rest .between .between (-1) := by
  induction fuel generalizing read text with
  | zero => cases found
  | succ fuel ih =>
    rw [separated] at found
    split at found
    · cases found
    · rename_i a after one
      have first := (each _ _ _ one).trans (skipBlank_takes after)
      split at found
      · cases found
      · rename_i c behind blank
        rw [blank] at first
        split at found
        · rename_i comma
          subst comma
          exact (first.trans (front (.plain rfl) behind)).trans (ih found)
        · split at found
          · rename_i closed
            subst closed
            cases found
            exact first.trans (front (.closing closes) _)
          · cases found

theorem bracketed_takes (found : bracketed item close fuel text = some (items, rest)) :
    Takes text rest .between .between (-1) := by
  have blanks := skipBlank_takes text
  rw [bracketed] at found
  split at found
  · cases found
  · rename_i c behind blank
    rw [blank] at blanks
    split at found
    · rename_i closed
      subst closed
      cases found
      exact blanks.trans (front (.closing closes) _)
    · exact blanks.trans (separated_takes each closes found)

end items

theorem member_takes {α : Type} {value : String → Parse α} {entry : String × α}
    (each : ∀ key text a rest, value key text = some (a, rest) → Takes text rest .between .between 0)
    (found : member value fuel text = some (entry, rest)) : Takes text rest .between .between 0 := by
  have blanks := skipBlank_takes text
  rw [member] at found
  split at found
  · rename_i behind quote
    rw [quote] at blanks
    split at found
    · cases found
    · rename_i key after body
      have name := (blanks.trans (front Leads.quote.1 behind)).trans (stringBody_takes body)
      split at found
      · rename_i colon
        have gap := skipBlank_takes after
        rw [colon] at gap
        obtain ⟨⟨a, _⟩, here, same⟩ := Option.map_eq_some_iff.mp found
        cases same
        exact ((name.trans gap).trans (front (.plain rfl) _)).trans (each _ _ _ _ here)
      · cases found
  · cases found

theorem value_takes {levels : Nat} {json : Json} (found : value .strict fuel levels text = some (json, rest)) :
    Takes text rest .between .between 0 := by
  induction levels using Nat.strongRecOn generalizing text json rest with
  | ind levels ih =>
    have blanks := skipBlank_takes text
    have word : ∀ (word : List Char), (∀ c ∈ word, isMark c = false) → ∀ rest, skipBlank text = word ++ rest →
        Takes text rest .between .between 0 := by
      intro word unmarked rest same
      rw [same] at blanks
      exact blanks.trans (front (.all fun c among => .plain (unmarked c among)) rest)
    rw [value] at found
    split at found
    · rename_i same
      cases found
      exact word ['n', 'u', 'l', 'l'] (unmarked rfl) _ same
    · rename_i same
      cases found
      exact word ['t', 'r', 'u', 'e'] (unmarked rfl) _ same
    · rename_i same
      cases found
      exact word ['f', 'a', 'l', 's', 'e'] (unmarked rfl) _ same
    · rename_i behind same
      rw [same] at blanks
      obtain ⟨⟨s, _⟩, body, equal⟩ := Option.map_eq_some_iff.mp found
      cases equal
      exact (blanks.trans (front Leads.quote.1 behind)).trans (stringBody_takes body)
    · rename_i behind same
      rw [same] at blanks
      cases levels with
      | zero => cases found
      | succ inner =>
        obtain ⟨⟨items, _⟩, here, equal⟩ := Option.map_eq_some_iff.mp found
        cases equal
        exact (blanks.trans (front (.opening (.inl rfl)) behind)).trans
          (bracketed_takes (fun text a rest one => ih inner (Nat.lt_succ_self _) one) (.inl rfl) here)
    · rename_i behind same
      rw [same] at blanks
      cases levels with
      | zero => cases found
      | succ inner =>
        obtain ⟨⟨entries, _⟩, here, equal⟩ := Option.map_eq_some_iff.mp found
        cases equal
        have entry : ∀ text (a : String × Json) rest, member (fun _ => value .strict fuel inner) fuel text = some (a, rest) →
            Takes text rest .between .between 0 :=
          fun text a rest one => member_takes (fun _ text a rest one => ih inner (Nat.lt_succ_self _) one) one
        exact (blanks.trans (front (.opening (.inr rfl)) behind)).trans (bracketed_takes entry (.inr rfl) here)
    · obtain ⟨⟨n, _⟩, here, equal⟩ := Option.map_eq_some_iff.mp found
      cases equal
      exact blanks.trans (number_takes here)

end Parser

theorem parse_closed {text : String} {levels : Nat} {json : Json} (read : parseWithin levels text = some json) :
    Leads text.toList .between .between 0 := by
  rw [parseWithin, Parser.whole] at read
  split at read
  · rename_i a rest found
    split at read
    · rename_i blank
      have ends := (Parser.value_takes found).trans (Parser.skipBlank_takes rest)
      rw [List.isEmpty_iff.mp blank] at ends
      obtain ⟨taken, same, leads⟩ := ends
      rw [same, List.append_nil]
      exact leads
    · cases read
  · cases read

-- The text leads from the one spot to the other, and on the way no bracket is closed that was
-- open before.
structure Keeps (text : List Char) (first last : Spot) : Prop where
  leads : Leads text first last 0
  above : ∀ part, part <+: text → ∀ depth, depth ≤ (Place.after ⟨depth, first⟩ part).depth

theorem prefix_append {part text more : List Char} (cut : part <+: text ++ more) :
    part <+: text ∨ ∃ behind, behind <+: more ∧ part = text ++ behind := by
  obtain ⟨rest, same⟩ := cut
  rcases List.append_eq_append_iff.mp same with ⟨within, here, -⟩ | ⟨behind, here, there⟩
  · exact .inl ⟨within, here.symm⟩
  · exact .inr ⟨behind, ⟨rest, there.symm⟩, here⟩

namespace Keeps
variable {text more : List Char} {first middle last : Spot}

theorem nil (spot : Spot) : Keeps [] spot spot := by
  refine ⟨.nil spot, fun part cut depth => ?_⟩
  rw [List.prefix_nil.mp cut]
  exact Int.le_refl depth

theorem one {c : Char} (leads : Leads [c] first last 0) : Keeps [c] first last := by
  refine ⟨leads, fun part cut depth => ?_⟩
  rcases List.prefix_cons_iff.mp cut with rfl | ⟨none, rfl, end_⟩
  · exact Int.le_refl depth
  · rw [List.prefix_nil.mp end_, leads depth]
    exact Int.le_of_eq (Int.add_zero depth).symm

theorem append (front : Keeps text first middle) (back : Keeps more middle last) :
    Keeps (text ++ more) first last := by
  refine ⟨front.leads.append back.leads, fun part cut depth => ?_⟩
  rcases prefix_append cut with within | ⟨behind, later, rfl⟩
  · exact front.above part within depth
  · have reached := front.leads depth
    rw [Int.add_zero] at reached
    rw [Place.after, List.foldl_append]
    change depth ≤ (Place.after (Place.after _ text) behind).depth
    rw [reached]
    exact back.above behind later depth

theorem flatMap {α : Type} {items : List α} {write : α → List Char}
    (each : ∀ a ∈ items, Keeps (write a) first first) : Keeps (items.flatMap write) first first := by
  induction items with
  | nil => exact nil first
  | cons a rest ih =>
    obtain ⟨here, others⟩ := List.forall_mem_cons.mp each
    rw [List.flatMap_cons]
    exact here.append (ih others)

theorem plain (unmarked : ∀ c ∈ text, isMark c = false) : Keeps text .between .between := by
  have each : ∀ c ∈ text, Keeps [c] .between .between := fun c among => one (.plain (unmarked c among))
  have whole := flatMap each
  rwa [List.flatMap_singleton'] at whole

theorem inner {c : Char} (opens : c = '[' ∨ c = '{') (keeps : Keeps text .between .between) {part : List Char}
    (cut : part <+: text) (depth : Int) : depth < (Place.after ⟨depth, .between⟩ (c :: part)).depth := by
  have opened : Place.after ⟨depth, .between⟩ (c :: part) = Place.after ⟨depth + 1, .between⟩ part :=
    congrArg (fun place => Place.after place part) (Leads.opening opens depth)
  rw [opened]
  exact keeps.above part cut (depth + 1)

theorem brackets {opening closing : Char} (opens : opening = '[' ∨ opening = '{') (closes : closing = ']' ∨ closing = '}')
    (keeps : Keeps text .between .between) : Keeps (opening :: text ++ [closing]) .between .between := by
  have leads : Leads (opening :: text ++ [closing]) .between .between 0 :=
    ((Leads.opening opens).append keeps.leads).append (.closing closes)
  refine ⟨leads, fun part cut depth => ?_⟩
  rcases prefix_append cut with within | ⟨behind, last, rfl⟩
  · rcases List.prefix_cons_iff.mp within with rfl | ⟨part, rfl, front⟩
    · exact Int.le_refl depth
    · exact Int.le_of_lt (inner opens keeps front depth)
  · rcases List.prefix_cons_iff.mp last with rfl | ⟨none, rfl, end_⟩
    · rw [List.append_nil]
      exact Int.le_of_lt (inner opens keeps (List.prefix_refl text) depth)
    · rw [List.prefix_nil.mp end_, leads depth]
      exact Int.le_of_eq (Int.add_zero depth).symm

theorem quoted {c : Char} (quote : c ≠ '"') (backslash : c ≠ '\\') : Keeps [c] .quoted .quoted :=
  one (.inner quote backslash)

theorem hexDigit {n : Nat} (small : n < 16) : Keeps [PluginBridge.hexDigit n] .quoted .quoted :=
  one (Parser.hexValue_inner (hexValue_hexDigit small))

theorem escape (c : Char) : Keeps ['\\', c] .quoted .quoted := (one .backslash).append (one (.behind c))

theorem escapeChar (c : Char) : Keeps (Json.escapeChar c) .quoted .quoted := by
  unfold Json.escapeChar
  split_ifs with quote backslash backspace formFeed newline carriageReturn tab low
  · exact escape _
  · exact escape _
  · exact escape _
  · exact escape _
  · exact escape _
  · exact escape _
  · exact escape _
  · have zeros : Keeps ['0', '0'] .quoted .quoted := (quoted (by decide) (by decide)).append (quoted (by decide) (by decide))
    exact (((escape 'u').append zeros).append (hexDigit (by omega))).append (hexDigit (by omega))
  · exact quoted quote backslash

theorem stringChars (s : String) : Keeps (Json.stringChars s) .between .between :=
  ((one Leads.quote.1).append (flatMap fun c _ => escapeChar c)).append (one Leads.quote.2)

theorem numberChars (n : JsonNumber) : Keeps (Json.numberChars n) .between .between := by
  have numeral : ∀ c, isNumeral c = true → isMark c = false := by
    intro c numeral
    obtain ⟨-, -, -, -, quote, bracket, brace, closing, end_⟩ := isNumeral_plain numeral
    simp [isMark, quote, bracket, brace, closing, end_]
  cases n with
  | integer n => exact plain fun c among => numeral c (integerChars_numeral n c among)
  | float x =>
    cases meant : x.meaning with
    | finite negative m e => exact plain fun c among => numeral c (floatChars_meant meant c among)
    | _ =>
      have shown : Json.numberChars (.float x) = ['n', 'u', 'l', 'l'] := by
        rw [Json.numberChars, floatChars, meant]
        rfl
      rw [shown]
      exact plain (unmarked rfl)

end Keeps

mutual

theorem chars_keeps : ∀ json : Json, Keeps json.chars .between .between
  | .null => .plain (unmarked rfl)
  | .bool true => .plain (unmarked rfl)
  | .bool false => .plain (unmarked rfl)
  | .number n => .numberChars n
  | .string s => .stringChars s
  | .array items => .brackets (.inl rfl) (.inl rfl) (itemsChars_keeps items)
  | .object members => .brackets (.inr rfl) (.inr rfl) (membersChars_keeps members)

theorem itemsChars_keeps : ∀ items : List Json, Keeps (itemsChars items) .between .between
  | [] => .nil .between
  | [item] => chars_keeps item
  | item :: other :: rest =>
    (chars_keeps item).append ((Keeps.one (.plain rfl)).append (itemsChars_keeps (other :: rest)))

theorem membersChars_keeps : ∀ members : List (String × Json), Keeps (membersChars members) .between .between
  | [] => .nil .between
  | [(key, value)] => (Keeps.stringChars key).append ((Keeps.one (.plain rfl)).append (chars_keeps value))
  | (key, value) :: other :: rest =>
    have entry := (Keeps.stringChars key).append ((Keeps.one (.plain rfl)).append (chars_keeps value))
    have later := (Keeps.one (.plain (c := ',') rfl)).append (membersChars_keeps (other :: rest))
    by simpa [membersChars] using entry.append later

end

theorem renderFields_cut {fields : List (String × Json)} {levels : Nat} {part rest : String}
    (cut : part ++ rest = renderFields fields) (strict : rest ≠ "") : parseWithin levels part = none := by
  have same : part.toList ++ rest.toList = ('{' :: membersChars fields) ++ ['}'] := by
    rw [← String.toList_append, cut, renderFields, String.toList_ofList]
  -- Something is cut off, so at least the last brace is.
  have within : part.toList <+: '{' :: membersChars fields := by
    rcases prefix_append ⟨_, same⟩ with within | ⟨behind, last, all⟩
    · exact within
    · rcases List.prefix_cons_iff.mp last with rfl | ⟨none, rfl, end_⟩
      · rw [List.append_nil] at all
        exact ⟨[], by rw [List.append_nil, all]⟩
      · rw [List.prefix_nil.mp end_] at all
        rw [all] at same
        exact absurd (String.toList_inj.mp (List.append_right_eq_self.mp same)) strict
  by_contra read
  obtain ⟨json, read⟩ := Option.ne_none_iff_exists'.mp read
  rcases List.prefix_cons_iff.mp within with empty | ⟨inner, front, cut⟩
  · have nothing : Parser.value .strict (part.length + 1) levels [] = none := by
      rw [Parser.value]
      rfl
    rw [parseWithin, empty, Parser.whole, nothing] at read
    cases read
  · have closed := parse_closed read 0
    have opened := Keeps.inner (.inr rfl) (membersChars_keeps fields) cut 0
    rw [← front, closed] at opened
    cases opened

end Json

end PluginBridge
