namespace PluginBridge

namespace Lossy

def isContinuation (b : UInt8) : Bool := 0x80 ≤ b && b < 0xC0

def secondFits (lead second : UInt8) : Bool :=
  if lead = 0xE0 then 0xA0 ≤ second && second < 0xC0
  else if lead = 0xED then 0x80 ≤ second && second < 0xA0
  else if lead = 0xF0 then 0x90 ≤ second && second < 0xC0
  else if lead = 0xF4 then 0x80 ≤ second && second < 0x90
  else isContinuation second

def payload (b : UInt8) : Nat := b.toNat % 64

-- The character that begins with `lead` and how many of the following bytes it takes.
-- The longest part of a sequence that could still have become a character counts as
-- one replacement character.
def step (lead : UInt8) (rest : List UInt8) : Char × Nat :=
  if lead < 0x80 then (Char.ofNat lead.toNat, 0)
  else if 0xC2 ≤ lead ∧ lead < 0xE0 then
    match rest with
    | b :: _ =>
      if isContinuation b then (Char.ofNat (lead.toNat % 32 * 64 + payload b), 1)
      else ('\uFFFD', 0)
    | [] => ('\uFFFD', 0)
  else if 0xE0 ≤ lead ∧ lead < 0xF0 then
    match rest with
    | b :: more =>
      if secondFits lead b then
        match more with
        | c :: _ =>
          if isContinuation c then
            (Char.ofNat ((lead.toNat % 16 * 64 + payload b) * 64 + payload c), 2)
          else ('\uFFFD', 1)
        | [] => ('\uFFFD', 1)
      else ('\uFFFD', 0)
    | [] => ('\uFFFD', 0)
  else if 0xF0 ≤ lead ∧ lead < 0xF5 then
    match rest with
    | b :: more =>
      if secondFits lead b then
        match more with
        | c :: more =>
          if isContinuation c then
            match more with
            | d :: _ =>
              if isContinuation d then
                (Char.ofNat (((lead.toNat % 8 * 64 + payload b) * 64 + payload c) * 64 + payload d), 3)
              else ('\uFFFD', 2)
            | [] => ('\uFFFD', 2)
          else ('\uFFFD', 1)
        | [] => ('\uFFFD', 1)
      else ('\uFFFD', 0)
    | [] => ('\uFFFD', 0)
  else ('\uFFFD', 0)

def chars : Nat → List Char → List UInt8 → List Char
  | _, read, [] => read.reverse
  | skip + 1, read, _ :: rest => chars skip read rest
  | 0, read, lead :: rest =>
    let (c, used) := step lead rest
    chars used (c :: read) rest

end Lossy

-- Well-formed bytes are their text; in others each ill-formed part becomes U+FFFD.
def lossyText (bytes : ByteArray) : String :=
  match String.fromUTF8? bytes with
  | some text => text
  | none => String.ofList (Lossy.chars 0 [] bytes.data.toList)

end PluginBridge
