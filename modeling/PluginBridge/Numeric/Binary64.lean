namespace PluginBridge

-- A double-precision number, kept as its 64 bits so that every pattern, the
-- many not-a-numbers included, passes through tables, bytes and copies unchanged.
structure Binary64 where
  bits : UInt64
deriving DecidableEq, Hashable, Inhabited, Repr

namespace Binary64

-- What a pattern stands for. A finite one is `± significand * 2 ^ exponent` exactly.
inductive Meaning where
  | nan
  | infinite (negative : Bool)
  | finite (negative : Bool) (significand : Nat) (exponent : Int)
deriving DecidableEq, Repr

def signBit : Nat := 0x8000000000000000

def leastNormal : Nat := 0x10000000000000

def infiniteMagnitude : Nat := 0x7FF0000000000000

def isNegative (x : Binary64) : Bool := signBit ≤ x.bits.toNat

def magnitude (x : Binary64) : Nat := x.bits.toNat % signBit

def meaning (x : Binary64) : Meaning :=
  let biased : Nat := x.magnitude / leastNormal
  let fraction : Nat := x.magnitude % leastNormal
  if biased = 2047 then
    if fraction = 0 then .infinite x.isNegative else .nan
  else if biased = 0 then .finite x.isNegative fraction (-1074)
  else .finite x.isNegative (leastNormal + fraction) (biased - 1075)

def isNaN (x : Binary64) : Bool := infiniteMagnitude < x.magnitude

def isFinite (x : Binary64) : Bool := x.magnitude < infiniteMagnitude

def ofMagnitude (negative : Bool) (magnitude : Nat) : Binary64 :=
  ⟨UInt64.ofNat ((if negative then signBit else 0) + min magnitude infiniteMagnitude)⟩

def zero : Binary64 := ofMagnitude false 0

def negZero : Binary64 := ofMagnitude true 0

def one : Binary64 := ofMagnitude false 0x3FF0000000000000

def quietNaN : Binary64 := ⟨0x7FF8000000000000⟩

def infinity (negative : Bool) : Binary64 := ofMagnitude negative infiniteMagnitude

def roundHalfEven (num den : Nat) : Nat :=
  let q := num / den
  let r := num % den
  if 2 * r < den then q
  else if den < 2 * r then q + 1
  else if q % 2 = 0 then q else q + 1

def shifted (num den : Nat) (e : Int) : Nat × Nat :=
  if 0 ≤ e then (num, den * Nat.pow 2 e.toNat) else (num * Nat.pow 2 (-e).toNat, den)

-- The double nearest `± num / den`. The exponent is chosen so that the rounded
-- significand has 53 bits; below the normal range it stays at its least value.
def ofRatio (negative : Bool) (num den : Nat) : Binary64 :=
  if num = 0 then ofMagnitude negative 0
  else
    let guess : Int := (num.log2 : Int) - den.log2 - 52
    let atGuess := shifted num den guess
    let fitted := if atGuess.1 < leastNormal * atGuess.2 then guess - 1 else guess
    let e := max fitted (-1074)
    let scaled := shifted num den e
    ofMagnitude negative ((e + 1074).toNat * leastNormal + roundHalfEven scaled.1 scaled.2)

def ofNat (n : Nat) : Binary64 := ofRatio false n 1

def ofInt (n : Int) : Binary64 := ofRatio (n < 0) n.natAbs 1

def onFinestGrid (negative : Bool) (significand : Nat) (exponent : Int) : Int :=
  let size := significand * Nat.pow 2 (exponent + 1074).toNat
  if negative then -(size : Int) else size

-- The sum of two numbers: exact, then rounded once. Opposite numbers sum to
-- positive zero, two negative zeros to negative zero.
def add (x y : Binary64) : Binary64 :=
  match x.meaning, y.meaning with
  | .nan, _ => x
  | _, .nan => y
  | .infinite s, .infinite t => if s = t then x else quietNaN
  | .infinite _, _ => x
  | _, .infinite _ => y
  | .finite s m e, .finite t n f =>
    let sum := onFinestGrid s m e + onFinestGrid t n f
    if sum = 0 then ofMagnitude (s && t) 0
    else ofRatio (sum < 0) sum.natAbs (Nat.pow 2 1074)

def mulFinite (x y : Binary64) : Binary64 :=
  match x.meaning, y.meaning with
  | .finite s m e, .finite t n f =>
    let ratio := shifted (m * n) 1 (-(e + f))
    ofRatio (s != t) ratio.1 ratio.2
  | _, _ => quietNaN

def divFinite (x y : Binary64) : Binary64 :=
  match x.meaning, y.meaning with
  | .finite s m e, .finite t n f =>
    if n = 0 then infinity (s != t)
    else
      let ratio := shifted m n (f - e)
      ofRatio (s != t) ratio.1 ratio.2
  | _, _ => quietNaN

def orderKey (x : Binary64) : Int := if x.isNegative then -(x.magnitude : Int) else x.magnitude

def equals (x y : Binary64) : Bool := !x.isNaN && !y.isNaN && x.orderKey == y.orderKey

def lt (x y : Binary64) : Bool := !x.isNaN && !y.isNaN && decide (x.orderKey < y.orderKey)

def le (x y : Binary64) : Bool := x.lt y || x.equals y

def truncate? (x : Binary64) : Option Int :=
  match x.meaning with
  | .finite s m e =>
    let size := if 0 ≤ e then m * Nat.pow 2 e.toNat else m / Nat.pow 2 (-e).toNat
    some (if s then -(size : Int) else size)
  | _ => none

def round? (x : Binary64) : Option Int :=
  match x.meaning with
  | .finite s m e =>
    let part := Nat.pow 2 (-e).toNat
    let size := if 0 ≤ e then m * Nat.pow 2 e.toNat else (2 * m + part) / (2 * part)
    some (if s then -(size : Int) else size)
  | _ => none

def clampToRange (low high : Int) (x : Binary64) : Int :=
  match x.meaning with
  | .nan => 0
  | .infinite s => if s then low else high
  | .finite .. => max low (min high (x.truncate?.getD 0))

def isIntegral (x : Binary64) : Bool :=
  match x.meaning with
  | .finite _ m e => 0 ≤ e || m % Nat.pow 2 (-e).toNat == 0
  | _ => false

end Binary64
end PluginBridge
