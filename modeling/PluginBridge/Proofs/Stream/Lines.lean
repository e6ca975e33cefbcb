import PluginBridge.Proofs.Flat.Blob
import PluginBridge.Stream.Message
import PluginBridge.Text.Lines
namespace PluginBridge
variable {id : Nat} {fields : List (String × Json)} {key : String}

namespace Text

theorem trim_between {first last : Char} (front : isBlankChar first = false)
    (back : isBlankChar last = false) (middle : List Char) :
    trim (String.ofList (first :: middle ++ [last])) = String.ofList (first :: middle ++ [last]) := by
  have start : ∀ {c : Char}, isBlankChar c = false → ∀ rest, trimStartChars (c :: rest) = c :: rest := by
    intro c plain rest
    rw [trimStartChars, List.dropWhile_cons, plain]
    rfl
  rw [trim, String.toList_ofList, trimChars, List.cons_append, start front, ← List.cons_append,
    List.reverse_append, List.reverse_singleton, List.singleton_append, start back]
  simp

theorem isBlank_between {first : Char} (front : isBlankChar first = false) (rest : List Char) :
    isBlank (String.ofList (first :: rest)) = false := by
  rw [isBlank, String.toList_ofList, List.all_cons, front, Bool.false_and]

end Text

namespace StreamLine
variable {line : String}

def closed (line : String) : String := line ++ "\n"

theorem feed_byte {c : Char} (other : c ≠ '\n') : 10 ∉ String.utf8EncodeChar c := by
  have number : c.val.toNat ≠ 10 := fun same => other (Char.ext (UInt32.toNat_inj.mp same))
  have byte : ∀ n < 256, n ≠ 10 → (10 : UInt8) ≠ UInt8.ofNat n := by
    intro n small apart same
    have value := congrArg UInt8.toNat same
    rw [UInt8.toNat_ofNat_of_lt' small] at value
    exact apart value.symm
  unfold String.utf8EncodeChar
  simp only
  split_ifs <;> simp only [List.mem_cons, List.not_mem_nil, or_false, not_or]
  · exact byte _ (by omega) number
  · exact ⟨byte _ (by omega) (by omega), byte _ (by omega) (by omega)⟩
  · exact ⟨byte _ (by omega) (by omega), byte _ (by omega) (by omega), byte _ (by omega) (by omega)⟩
  · exact ⟨byte _ (by omega) (by omega), byte _ (by omega) (by omega), byte _ (by omega) (by omega),
      byte _ (by omega) (by omega)⟩

theorem toList_utf8 (text : String) : Bytes.toList text.toUTF8 = text.toList.flatMap String.utf8EncodeChar := by
  have encoded : text.toUTF8 = text.toList.utf8Encode := String.utf8Encode_toList.symm
  rw [encoded, Bytes.toList, List.utf8Encode, List.data_toByteArray]

theorem splitFrom_closed {bytes : List UInt8} (unbroken : 10 ∉ bytes) (part rest : List UInt8) :
    splitFrom part (bytes ++ 10 :: rest) =
      (ofBytes (part.reverse ++ bytes) :: (splitFrom [] rest).1, (splitFrom [] rest).2) := by
  induction bytes generalizing part with
  | nil => simp [splitFrom]
  | cons b bytes ih =>
    have inner : b ≠ 10 := fun same => unbroken (same ▸ List.mem_cons_self)
    have later := ih (fun among => unbroken (List.mem_cons_of_mem b among)) (b :: part)
    rw [List.cons_append, splitFrom, if_neg inner, later, List.reverse_cons, List.append_assoc, List.singleton_append]

theorem ofStream_closed (unbroken : '\n' ∉ line.toList) : ofStream (closed line).toUTF8 = [.text line] := by
  have bytes : 10 ∉ line.toList.flatMap String.utf8EncodeChar := by
    rw [List.mem_flatMap]
    rintro ⟨c, among, byte⟩
    exact feed_byte (fun same => unbroken (same ▸ among)) byte
  have feed : Bytes.toList (closed line).toUTF8 = line.toList.flatMap String.utf8EncodeChar ++ [10] := by
    rw [toList_utf8, closed, String.toList_append, List.flatMap_append]
    rfl
  have whole : ofBytes (line.toList.flatMap String.utf8EncodeChar) = .text line := by
    have back : Bytes.ofList (line.toList.flatMap String.utf8EncodeChar) = line.toUTF8 := String.utf8Encode_toList
    rw [ofBytes, back, utf8_back]
  rw [ofStream, feed, splitFrom_closed bytes, List.reverse_nil, List.nil_append, whole]
  rfl

end StreamLine

namespace Json

theorem trim_renderFields (fields : List (String × Json)) :
    Text.trim (renderFields fields) = renderFields fields :=
  Text.trim_between (by decide) (by decide) _

theorem isBlank_renderFields (fields : List (String × Json)) : Text.isBlank (renderFields fields) = false :=
  Text.isBlank_between (by decide) _

theorem get?_ofEntries (apart : (fields.map Prod.fst).Nodup) (key : String) :
    (ofEntries fields).get? key = Members.get? key fields := by
  rw [ofEntries, get?, Members.get?_collected apart]

theorem get_ofEntries (apart : (fields.map Prod.fst).Nodup) {value : Json}
    (found : Members.get? key fields = some value) : (ofEntries fields).get key = value := by
  rw [get, get?_ofEntries apart, found]
  rfl

theorem reread_get? (json : Json) (key : String) : json.reread.get? key = (json.get? key).map reread := by
  cases json with
  | object members => rw [reread, get?, membersReread_eq, Members.get?_mapValues, get?]
  | _ => rfl

theorem reread_get (json : Json) (key : String) : json.reread.get key = (json.get key).reread := by
  rw [get, get, reread_get?]
  cases json.get? key <;> rfl

theorem ofEntries_readable (each : ∀ entry ∈ fields, entry.2.Readable) : (ofEntries fields).Readable :=
  ⟨Members.ofList_ascending fields, membersReadable fun entry among => each entry (Members.ofList_mem among)⟩

theorem ofEntries_legible (each : ∀ entry ∈ fields, entry.2.Legible) : (ofEntries fields).Legible :=
  ⟨Members.ofList_ascending fields, membersLegible fun entry among => each entry (Members.ofList_mem among)⟩

theorem ofEntries_levels {limit : Nat} (each : ∀ entry ∈ fields, entry.2.levels ≤ limit) :
    (ofEntries fields).levels ≤ limit + 1 :=
  Nat.succ_le_succ (membersLevels_le.mpr fun entry among => each entry (Members.ofList_mem among))

theorem natural_readable {n : Nat} (small : n < wordLimit) : (natural n).Readable := by
  rw [wordLimit] at small
  exact ⟨by omega, by omega⟩

theorem toWord_natural (n : Nat) : (natural n).toWord? = some n := by
  rw [natural, toWord?, if_pos (by omega)]
  rfl

end Json

namespace Message

theorem ofJson_request (id : Nat) (command : String) (data : Json) :
    ofJson? (.ofEntries [("id", .natural id), ("cmd", .string command), ("data", data)]) =
      some (.request ⟨id, command, data⟩) := by
  have apart : (["id", "cmd", "data"] : List String).Nodup := by decide
  have get := fun key => @Members.get?_collected _ key
    [("id", .natural id), ("cmd", .string command), ("data", data)] apart
  simp [ofJson?, Json.get?, Request.ofJson?, Json.record?, Json.ofEntries, Json.required, Json.withDefault,
    get, Members.get?, Json.toWord_natural, Json.toString?]

theorem ofJson_callback (id : Nat) (name : String) (data : Json) :
    ofJson? (.ofEntries [("id", .natural id), ("callback", .string name), ("data", data)]) =
      some (.callback ⟨id, name, data⟩) := by
  have apart : (["id", "callback", "data"] : List String).Nodup := by decide
  have get := fun key => @Members.get?_collected _ key
    [("id", .natural id), ("callback", .string name), ("data", data)] apart
  simp [ofJson?, Json.get?, Callback.ofJson?, Json.record?, Json.ofEntries, Json.required, Json.withDefault,
    get, Members.get?, Json.toWord_natural, Json.toString?]

theorem ofJson_result (id : Nat) (result : Json) : ∃ response,
    ofJson? (.ofEntries [("id", .natural id), ("success", .bool true), ("result", result)]) =
      some (.response response) ∧ response.id = id ∧ response.outcome = .ok result := by
  have apart : (["id", "success", "result"] : List String).Nodup := by decide
  have get := fun key => @Members.get?_collected _ key
    [("id", .natural id), ("success", .bool true), ("result", result)] apart
  by_cases null : result = .null
  · subst null
    refine ⟨⟨id, true, none, none⟩, ?_, rfl, rfl⟩
    simp [ofJson?, Json.get?, Response.ofJson?, Json.record?, Json.ofEntries, Json.required, Json.optional,
      get, Members.get?, Json.toWord_natural, Json.toBool?]
  · refine ⟨⟨id, true, some result, none⟩, ?_, rfl, rfl⟩
    simp [ofJson?, Json.get?, Response.ofJson?, Json.record?, Json.ofEntries, Json.required, Json.optional,
      get, Members.get?, Json.toWord_natural, Json.toBool?]

theorem ofJson_error (id : Nat) (text : String) :
    ofJson? (.ofEntries [("id", .natural id), ("success", .bool false), ("error", .string text)]) =
      some (.response (Response.failed id text)) := by
  have apart : (["id", "success", "error"] : List String).Nodup := by decide
  have get := fun key => @Members.get?_collected Json key
    [("id", .natural id), ("success", .bool false), ("error", .string text)] apart
  simp [ofJson?, Json.get?, Response.ofJson?, Json.record?, Json.ofEntries, Json.required, Json.optional,
    get, Members.get?, Json.toWord_natural, Json.toBool?, Json.toString?, Response.failed]

theorem natural_legible (small : id < wordLimit) : (Json.natural id).Legible :=
  (Json.natural_readable small).legible.1

theorem parse_command {request : Request} (small : request.id < wordLimit)
    (legible : request.data.Legible) (shallow : request.data.levels < Json.maxLevels) :
    parse? request.line = some (.request { request with data := request.data.reread }) := by
  obtain ⟨id, command, data⟩ := request
  have read : Json.parse? (Request.line ⟨id, command, data⟩) =
      some (.ofEntries [("id", .natural id), ("cmd", .string command), ("data", data.reread)]) := by
    refine Json.parse_fields ⟨natural_legible small, trivial, legible, trivial⟩ ?_
    simpa [Json.membersLevels, Json.levels, Json.natural, Json.maxLevels] using shallow
  rw [parse?, read, Option.bind_some, ofJson_request]

theorem parse_deep {request : Request} (small : request.id < wordLimit) (legible : request.data.Legible)
    (deep : Json.maxLevels ≤ request.data.levels) : parse? request.line = none := by
  have apart : (["id", "cmd", "data"] : List String).Nodup := by decide
  have refused : Json.parse? request.line = none :=
    Json.parse_fields_deep ⟨natural_legible small, trivial, legible, trivial⟩ apart (by simp [Json.membersLevels, deep])
  rw [parse?, refused]
  rfl

theorem parse_request {request : Request} (small : request.id < wordLimit)
    (readable : request.data.Readable) (shallow : request.data.levels < Json.maxLevels) :
    parse? request.line = some (.request request) := by
  obtain ⟨legible, same⟩ := readable.legible
  rw [parse_command small legible shallow, same]

def ReadAs (line : String) (meant : Message → Prop) : Prop :=
  (StreamLine.closed line).toList.count '\n' = 1 ∧ StreamLine.ofStream (StreamLine.closed line).toUTF8 = [.text line] ∧
    ∃ message, parse? line = some message ∧ parse? (StreamLine.closed line) = some message ∧ meant message

theorem fields_readAs {fields : List (String × Json)} {message : Message} {meant : Message → Prop}
    (readable : Json.MembersReadable fields) (shallow : Json.membersLevels fields < Json.maxLevels)
    (found : ofJson? (.ofEntries fields) = some message) (fits : meant message) :
    ReadAs (Json.renderFields fields) meant := by
  obtain ⟨legible, same⟩ := Json.members_legible readable
  have unbroken : '\n' ∉ (Json.renderFields fields).toList := by
    intro among
    have printable := Json.chars_printable (.object fields) '\n'
    rw [Json.renderFields, String.toList_ofList] at among
    exact absurd (printable among) (by decide)
  have read := Json.parse_renderFields readable shallow
  have feed : Json.parse? (StreamLine.closed (Json.renderFields fields)) = some (.ofEntries fields) := by
    have blank : StreamLine.closed (Json.renderFields fields) =
      Json.renderFields fields ++ String.ofList ['\n'] := rfl
    rw [blank, Json.parse_fields_before legible shallow (.cons (by decide)) rfl, same]
  refine ⟨?_, StreamLine.ofStream_closed unbroken, message, ?_, ?_, fits⟩
  · rw [StreamLine.closed, String.toList_append, List.count_append, List.count_eq_zero.mpr unbroken]
    rfl
  · rw [parse?, read, Option.bind_some, found]
  · rw [parse?, feed, Option.bind_some, found]

theorem fields_shallow {first second : String × Json} {key : String} {data : Json}
    (flat : first.2.levels = 0 ∧ second.2.levels = 0) (shallow : data.levels < Json.maxLevels) :
    Json.membersLevels [first, second, (key, data)] < Json.maxLevels := by
  simpa [Json.membersLevels, flat] using shallow

theorem parse_callback {callback : Callback} (small : callback.id < wordLimit)
    (readable : callback.data.Readable) (shallow : callback.data.levels < Json.maxLevels) :
    parse? callback.line = some (.callback callback) := by
  obtain ⟨id, name, data⟩ := callback
  have read : Json.parse? (Callback.line ⟨id, name, data⟩) =
      some (.ofEntries [("id", .natural id), ("callback", .string name), ("data", data)]) :=
    Json.parse_renderFields ⟨Json.natural_readable small, trivial, readable, trivial⟩ (fields_shallow ⟨rfl, rfl⟩ shallow)
  rw [parse?, read, Option.bind_some, ofJson_callback]

theorem parse_result {result : Json} (small : id < wordLimit) (readable : result.Readable)
    (shallow : result.levels < Json.maxLevels) :
    ∃ response, parse? (Response.ok id result).line = some (.response response) ∧ response.id = id ∧
      response.outcome = .ok result := by
  have read : Json.parse? (Response.ok id result).line =
      some (.ofEntries [("id", .natural id), ("success", .bool true), ("result", result)]) :=
    Json.parse_renderFields ⟨Json.natural_readable small, trivial, readable, trivial⟩ (fields_shallow ⟨rfl, rfl⟩ shallow)
  rw [parse?, read, Option.bind_some]
  exact ofJson_result id result

-- What goes over the stream stands on one line there and means what was sent, whatever keys are in its data: a command and
-- a question come with their id, their name and their data, an answer with its id and its outcome, also a null one.
theorem lines_keep_meaning {payload : Json} (small : id < wordLimit) (readable : payload.Readable)
    (shallow : payload.levels < Json.maxLevels) :
    (∀ command, ReadAs (Request.line ⟨id, command, payload⟩) (· = .request ⟨id, command, payload⟩)) ∧
    (∀ name, ReadAs (Callback.line ⟨id, name, payload⟩) (· = .callback ⟨id, name, payload⟩)) ∧
    ∀ outcome, outcome = .ok payload ∨ (∃ text, outcome = .error text) →
      ReadAs (Response.ofOutcome id outcome).line fun message =>
        ∃ response, message = .response response ∧ response.id = id ∧ response.outcome = outcome := by
  have number : (Json.natural id).Readable := Json.natural_readable small
  refine ⟨fun command => ?_, fun name => ?_, fun outcome given => ?_⟩
  · exact fields_readAs ⟨number, trivial, readable, trivial⟩ (fields_shallow ⟨rfl, rfl⟩ shallow)
      (ofJson_request id command payload) rfl
  · exact fields_readAs ⟨number, trivial, readable, trivial⟩ (fields_shallow ⟨rfl, rfl⟩ shallow)
      (ofJson_callback id name payload) rfl
  · rcases given with rfl | ⟨text, rfl⟩
    · obtain ⟨response, found, same, outcome⟩ := ofJson_result id payload
      exact fields_readAs ⟨number, trivial, readable, trivial⟩ (fields_shallow ⟨rfl, rfl⟩ shallow)
        found ⟨response, rfl, same, outcome⟩
    · exact fields_readAs ⟨number, trivial, trivial, trivial⟩ (fields_shallow ⟨rfl, rfl⟩ (Nat.zero_lt_succ _))
        (ofJson_error id text) ⟨_, rfl, rfl, rfl⟩

-- Data that looks like a question and like a command, and a line feed in it.
theorem lines_keep_meaning_imitating : ∃ payload : Json,
    payload = .object [("callback", .string "a\nb"), ("cmd", .null), ("id", .natural 9)] ∧
    7 < wordLimit ∧ payload.Readable ∧ payload.levels < Json.maxLevels ∧
    ReadAs (Request.line ⟨7, "f", payload⟩) (· = .request ⟨7, "f", payload⟩) ∧
    ReadAs (Response.ofOutcome 7 (.ok payload)).line fun message =>
      ∃ response, message = .response response ∧ response.id = 7 ∧ response.outcome = .ok payload := by
  have readable : Json.Readable (.object [("callback", .string "a\nb"), ("cmd", .null), ("id", .natural 9)]) :=
    ⟨by simp only [Members.Ascending]; decide +kernel, trivial, trivial, Json.natural_readable (by decide), trivial⟩
  have small : 7 < wordLimit := by decide
  have shallow : Json.levels (.object [("callback", .string "a\nb"), ("cmd", .null), ("id", .natural 9)]) <
    Json.maxLevels := by decide
  obtain ⟨request, -, response⟩ := lines_keep_meaning small readable shallow
  exact ⟨_, rfl, small, readable, shallow, request "f", response _ (.inl rfl)⟩

end Message
end PluginBridge
