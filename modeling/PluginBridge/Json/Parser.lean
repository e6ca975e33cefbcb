import PluginBridge.Json.Basic
import PluginBridge.Numeric.Hexadecimal
namespace PluginBridge

-- Reading the text of a value. Every parser takes the characters that are left and
-- gives what it read together with the characters after it.
abbrev Parse (α : Type) := List Char → Option (α × List Char)

namespace Json.Parser

-- How far a value that nobody looks at is examined. A tolerated value may hold half
-- of a surrogate pair and numbers beyond the range of a double.
inductive Care where
  | strict
  | tolerant
deriving DecidableEq

def isBlank (c : Char) : Bool := c == ' ' || c == '\t' || c == '\n' || c == '\r'

def skipBlank (text : List Char) : List Char := text.dropWhile isBlank

def digitValue (c : Char) : Nat := c.toNat - '0'.toNat

def hexQuad? : Parse Nat
  | a :: b :: c :: d :: rest => do
    let w ← hexValue? a
    let x ← hexValue? b
    let y ← hexValue? c
    let z ← hexValue? d
    some (((w * 16 + x) * 16 + y) * 16 + z, rest)
  | _ => none

def unicodeEscape (care : Care) (text : List Char) : Option (Char × List Char) := do
  let (unit, rest) ← hexQuad? text
  if care = .tolerant then some ('\uFFFD', rest)
  else if 0xDC00 ≤ unit ∧ unit < 0xE000 then none
  else if 0xD800 ≤ unit ∧ unit < 0xDC00 then
    match rest with
    | '\\' :: 'u' :: rest =>
      let (trail, rest) ← hexQuad? rest
      if 0xDC00 ≤ trail ∧ trail < 0xE000 then
        some (Char.ofNat (0x10000 + (unit - 0xD800) * 0x400 + (trail - 0xDC00)), rest)
      else none
    | _ => none
  else some (Char.ofNat unit, rest)

def simpleEscape? (c : Char) : Option Char :=
  if c = '"' then some '"'
  else if c = '\\' then some '\\'
  else if c = '/' then some '/'
  else if c = 'b' then some '\x08'
  else if c = 'f' then some '\x0c'
  else if c = 'n' then some '\n'
  else if c = 'r' then some '\r'
  else if c = 't' then some '\t'
  else none

def stringBody (care : Care) : Nat → List Char → Parse String
  | 0, _, _ => none
  | fuel + 1, read, text =>
    match text with
    | [] => none
    | '"' :: rest => some (String.ofList read.reverse, rest)
    | '\\' :: 'u' :: rest =>
      match unicodeEscape care rest with
      | some (c, rest) => stringBody care fuel (c :: read) rest
      | none => none
    | '\\' :: e :: rest =>
      match simpleEscape? e with
      | some c => stringBody care fuel (c :: read) rest
      | none => none
    | c :: rest => if c.toNat < 32 ∨ c = '\\' then none else stringBody care fuel (c :: read) rest

-- Digits are taken into the significand as long as it fits an unsigned 64-bit word.
-- Gives the significand and how many digits it took.
def significand (start : Nat) : List Char → Nat × Nat
  | [] => (start, 0)
  | c :: rest =>
    let next := start * 10 + digitValue c
    if 0x10000000000000000 ≤ next then (start, 0)
    else
      let (value, used) := significand next rest
      (value, used + 1)

def powerOfTen (n : Nat) : Binary64 := .ofNat (Nat.pow 10 n)

def divideByPower (x : Binary64) (n : Nat) : Binary64 :=
  if n ≤ 308 then x.divFinite (powerOfTen n)
  else if x.magnitude = 0 then x
  else divideByPower (x.divFinite (powerOfTen 308)) (n - 308)
termination_by n

def scaled? (digits : Nat) (exponent : Int) : Option Binary64 :=
  let x := Binary64.ofNat digits
  if exponent < 0 then some (divideByPower x exponent.natAbs)
  else if 308 < exponent then (if digits = 0 then some x else none)
  else
    let product := x.mulFinite (powerOfTen exponent.toNat)
    if product.isFinite then some product else none

structure Literal where
  negative : Bool
  whole : List Char
  fraction : Option (List Char)
  exponent : Option (Bool × List Char)

def digits1? (text : List Char) : Option (List Char × List Char) :=
  match text.takeWhile Char.isDigit with
  | [] => none
  | digits => some (digits, text.dropWhile Char.isDigit)

def minus : List Char → Bool × List Char
  | '-' :: rest => (true, rest)
  | text => (false, text)

def fraction? : Parse (Option (List Char))
  | '.' :: rest => (digits1? rest).map fun (digits, rest) => (some digits, rest)
  | text => some (none, text)

def exponentSign : List Char → Bool × List Char
  | '+' :: rest => (false, rest)
  | '-' :: rest => (true, rest)
  | text => (false, text)

def exponent? : Parse (Option (Bool × List Char))
  | c :: rest =>
    if c = 'e' ∨ c = 'E' then
      let (down, rest) := exponentSign rest
      (digits1? rest).map fun (digits, rest) => (some (down, digits), rest)
    else some (none, c :: rest)
  | [] => some (none, [])

def literal : Parse Literal := fun text => do
  let (negative, text) := minus text
  let (whole, text) ← digits1? text
  if whole.head? = some '0' ∧ 1 < whole.length then none
  else do
    let (fraction, text) ← fraction? text
    let (exponent, text) ← exponent? text
    some (⟨negative, whole, fraction, exponent⟩, text)

-- Digits that no longer fit the significand are dropped: those before the point count
-- into the exponent.
def Literal.float? (l : Literal) : Option Binary64 := do
  let (upper, used) := significand 0 l.whole
  let (value, after) := significand upper (l.fraction.getD [])
  let place : Int := ((l.whole.length - used : Nat) : Int) - after
  let size ← match l.exponent with
    | none => scaled? value place
    | some (down, digits) =>
      let shift := digits.foldl (fun n c => n * 10 + digitValue c) 0
      if 0x80000000 ≤ shift then
        if value ≠ 0 ∧ ¬ down then none else some .zero
      else scaled? value (if down then place - shift else place + shift)
  some (if l.negative then .ofMagnitude true size.magnitude else size)

def Literal.number? (l : Literal) : Option JsonNumber :=
  let (value, used) := significand 0 l.whole
  if l.fraction.isSome ∨ l.exponent.isSome ∨ used < l.whole.length then l.float?.map .float
  else if l.negative then
    if 0 < value ∧ value ≤ 0x8000000000000000 then some (.integer (-(value : Int))) else l.float?.map .float
  else some (.integer value)

def number (care : Care) : Parse JsonNumber := fun text => do
  let (l, rest) ← literal text
  match l.number?, care with
  | some n, _ => some (n, rest)
  | none, .tolerant => some (.integer 0, rest)
  | none, .strict => none

def separated {α : Type} (item : Parse α) (close : Char) : Nat → List α → Parse (List α)
  | 0, _, _ => none
  | fuel + 1, read, text =>
    match item text with
    | none => none
    | some (a, rest) =>
      match skipBlank rest with
      | [] => none
      | c :: rest =>
        if c = ',' then separated item close fuel (a :: read) rest
        else if c = close then some ((a :: read).reverse, rest)
        else none

def bracketed {α : Type} (item : Parse α) (close : Char) (fuel : Nat) : Parse (List α) := fun text =>
  match skipBlank text with
  | [] => none
  | c :: rest => if c = close then some ([], rest) else separated item close fuel [] (c :: rest)

def member {α : Type} (value : String → Parse α) (fuel : Nat) : Parse (String × α) := fun text =>
  match skipBlank text with
  | '"' :: rest =>
    match stringBody .strict fuel [] rest with
    | none => none
    | some (key, rest) =>
      match skipBlank rest with
      | ':' :: rest => (value key rest).map fun (a, rest) => ((key, a), rest)
      | _ => none
  | _ => none

def tolerantMember {α : Type} (value : Parse α) (fuel : Nat) : Parse (String × α) := fun text =>
  match skipBlank text with
  | '"' :: rest =>
    match stringBody .tolerant fuel [] rest with
    | none => none
    | some (key, rest) =>
      match skipBlank rest with
      | ':' :: rest => (value rest).map fun (a, rest) => ((key, a), rest)
      | _ => none
  | _ => none

def value (care : Care) (fuel : Nat) : Nat → Parse Json
  | levels, text =>
    match skipBlank text with
    | 'n' :: 'u' :: 'l' :: 'l' :: rest => some (.null, rest)
    | 't' :: 'r' :: 'u' :: 'e' :: rest => some (.bool true, rest)
    | 'f' :: 'a' :: 'l' :: 's' :: 'e' :: rest => some (.bool false, rest)
    | '"' :: rest => (stringBody care fuel [] rest).map fun (s, rest) => (.string s, rest)
    | '[' :: rest =>
      match levels with
      | 0 => none
      | inner + 1 =>
        (bracketed (value care fuel inner) ']' fuel rest).map fun (items, rest) => (.array items, rest)
    | '{' :: rest =>
      match levels with
      | 0 => none
      | inner + 1 =>
        let entry := match care with
          | .strict => member (fun _ => value care fuel inner) fuel
          | .tolerant => tolerantMember (value care fuel inner) fuel
        (bracketed entry '}' fuel rest).map fun (entries, rest) => (.ofEntries entries, rest)
    | text => (number care text).map fun (n, rest) => (.number n, rest)

def whole {α : Type} (parse : Parse α) (text : List Char) : Option α :=
  match parse text with
  | some (a, rest) => if (skipBlank rest).isEmpty then some a else none
  | none => none

end Json.Parser

namespace Json

def maxLevels : Nat := 127

def parseWithin (levels : Nat) (text : String) : Option Json :=
  Parser.whole (Parser.value .strict (text.length + 1) levels) text.toList

def parse? (text : String) : Option Json := parseWithin maxLevels text

end Json
end PluginBridge
