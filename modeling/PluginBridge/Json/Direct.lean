import PluginBridge.Json.Parser
namespace PluginBridge.Json.Direct
open PluginBridge.Json.Parser

-- Readers of records straight from their text. Unlike a value that is read first and
-- looked at later, a record read this way must not name a field twice, and what stands
-- under a name it does not know is skipped without a look at it. `size` is the length
-- of the whole text.

def skipped (size : Nat) : Parse Json := value .tolerant (size + 1) size

def leaf (size : Nat) : Parse Json := value .strict (size + 1) maxLevels

def choice (size : Nat) : Parse Json := fun text =>
  match skipBlank text with
  | '{' :: rest => do
    let (entry, rest) ← member (fun _ => leaf size) (size + 1) rest
    match skipBlank rest with
    | '}' :: rest => some (.object [entry], rest)
    | _ => none
  | text => leaf size text

def listOf (item : Parse Json) (size : Nat) : Parse Json := fun text =>
  match skipBlank text with
  | '[' :: rest => (bracketed item ']' (size + 1) rest).map fun (items, rest) => (.array items, rest)
  | _ => none

def repeats (names : List String) : List String → Bool
  | [] => false
  | name :: rest => (names.contains name && rest.contains name) || repeats names rest

def positional : List (String × Parse Json) → Parse (List (String × Json))
  | [], text =>
    match skipBlank text with
    | ']' :: rest => some ([], rest)
    | _ => none
  | (name, field) :: others, text => do
    let (json, rest) ← field text
    match skipBlank rest with
    | ']' :: rest => some ([(name, json)], rest)
    | ',' :: rest =>
      match others with
      | [] => none
      | others =>
        let (entries, rest) ← positional others rest
        some ((name, json) :: entries, rest)
    | _ => none

def record (fields : List (String × Parse Json)) (size : Nat) : Parse Json := fun text =>
  match skipBlank text with
  | '{' :: rest => do
    let field := fun name => (List.lookup name fields).getD (skipped size)
    let (entries, rest) ← bracketed (member field (size + 1)) '}' (size + 1) rest
    if repeats (fields.map Prod.fst) (entries.map Prod.fst) then none
    else some (.ofEntries entries, rest)
  | '[' :: rest =>
    match skipBlank rest with
    | ']' :: rest => some (.object [], rest)
    | rest => do
      let (entries, rest) ← positional fields rest
      some (.ofEntries entries, rest)
  | _ => none

end PluginBridge.Json.Direct
