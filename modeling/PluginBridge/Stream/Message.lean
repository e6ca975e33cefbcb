import PluginBridge.Json.Parser
import PluginBridge.Json.Printer
import PluginBridge.Json.Record
import PluginBridge.Numeric.Natural
import PluginBridge.Text.Blank
namespace PluginBridge

structure Request where
  id : Nat
  command : String
  data : Json
deriving Inhabited, Repr

structure Response where
  id : Nat
  success : Bool
  result : Option Json
  error : Option String
deriving Inhabited, Repr

-- What the side that serves a command asks in the middle of it. It too is answered by a
-- response with its id.
structure Callback where
  id : Nat
  name : String
  data : Json
deriving Inhabited, Repr

inductive Message where
  | request (request : Request)
  | response (response : Response)
  | callback (callback : Callback)
deriving Inhabited, Repr

namespace Request

def ofJson? (json : Json) : Option Request := do
  let members ← json.record? ["id", "cmd", "data"]
  return {
    id := ← Json.required members "id" Json.toWord?
    command := ← Json.required members "cmd" Json.toString?
    data := ← Json.withDefault members "data" .null some }

def line (request : Request) : String :=
  Json.renderFields [("id", .natural request.id), ("cmd", .string request.command),
    ("data", request.data)]

end Request

namespace Callback

def ofJson? (json : Json) : Option Callback := do
  let members ← json.record? ["id", "callback", "data"]
  return {
    id := ← Json.required members "id" Json.toWord?
    name := ← Json.required members "callback" Json.toString?
    data := ← Json.withDefault members "data" .null some }

def line (callback : Callback) : String :=
  Json.renderFields [("id", .natural callback.id), ("callback", .string callback.name),
    ("data", callback.data)]

end Callback

namespace Response

def ok (id : Nat) (result : Json) : Response := ⟨id, true, some result, none⟩

def failed (id : Nat) (text : String) : Response := ⟨id, false, none, some text⟩

def ofOutcome (id : Nat) : Except String Json → Response
  | .ok result => ok id result
  | .error text => failed id text

def outcome (response : Response) : Except String Json :=
  if response.success then .ok (response.result.getD .null)
  else .error (response.error.getD "unknown error")

def ofJson? (json : Json) : Option Response := do
  let members ← json.record? ["id", "success", "result", "error"]
  return {
    id := ← Json.required members "id" Json.toWord?
    success := ← Json.required members "success" Json.toBool?
    result := ← Json.optional members "result" some
    error := ← Json.optional members "error" Json.toString? }

def line (response : Response) : String :=
  Json.renderFields ([("id", .natural response.id), ("success", .bool response.success)] ++
    (response.result.toList.map fun result => ("result", result)) ++
    response.error.toList.map fun text => ("error", .string text))

end Response

namespace Message

-- The key tells what a message is: `callback` before `cmd`, and without both a response.
def ofJson? (json : Json) : Option Message :=
  if (json.get? "callback").isSome then (Callback.ofJson? json).map .callback
  else if (json.get? "cmd").isSome then (Request.ofJson? json).map .request
  else (Response.ofJson? json).map .response

def parse? (line : String) : Option Message := (Json.parse? line).bind ofJson?

def line : Message → String
  | .request r => r.line
  | .response r => r.line
  | .callback c => c.line

def after? (start : List Char) (text : List Char) : Option (List Char) :=
  if start.isPrefixOf text then some (text.drop start.length) else none

def holds (part : List Char) : List Char → Bool
  | [] => part.isEmpty
  | c :: rest => part.isPrefixOf (c :: rest) || holds part rest

def leadingId? (text : List Char) : Option Nat := do
  let text ← after? ['{'] (Text.trimStartChars text)
  let text ← after? "\"id\"".toList (Text.trimStartChars text)
  let text ← after? [':'] (Text.trimStartChars text)
  wordOfDigits? ((Text.trimStartChars text).takeWhile Char.isDigit)

-- The id of a line that is no message but was meant as a response. In a line that is
-- no value at all the id is found only at its start, where a response has it.
def responseId? (line : String) : Option Nat :=
  match Json.parse? line with
  | some json =>
    if (json.get? "callback").isSome || (json.get? "cmd").isSome then none
    else (json.get? "id").bind Json.toWord?
  | none =>
    let text := line.toList
    if holds "\"callback\"".toList text || holds "\"cmd\"".toList text then none
    else leadingId? text

end Message
end PluginBridge
