import PluginBridge.Numeric.Binary64
namespace PluginBridge

structure Decimal where
  digits : Nat
  exponent : Int
deriving DecidableEq, Repr

namespace Decimal

def commonUnits (p q : Int) : Nat × Nat :=
  (Nat.pow 10 p.toNat * Nat.pow 2 (-q).toNat, Nat.pow 2 q.toNat * Nat.pow 10 (-p).toNat)

-- The numbers that round to `significand * 2 ^ exponent`, counted in quarters of that
-- significand's last place: up to half a place on either side, a quarter below a power
-- of two. The ends belong to it when the significand is even.
structure Interval where
  low : Nat
  value : Nat
  high : Nat
  closed : Bool

def Interval.around (significand : Nat) (exponent : Int) : Interval where
  low := 4 * significand - (if significand = Binary64.leastNormal ∧ -1074 < exponent then 1 else 2)
  value := 4 * significand
  high := 4 * significand + 2
  closed := significand % 2 = 0

def Interval.holds (i : Interval) (point unit : Nat) : Bool :=
  if i.closed then i.low * unit ≤ point && point ≤ i.high * unit
  else i.low * unit < point && point < i.high * unit

-- The neighbour of the value on the grid `10 ^ p` that lies in the interval, the nearer
-- one if both do, the even one if they are equally near.
def onGrid? (i : Interval) (quarter p : Int) : Option Decimal :=
  let (step, unit) := commonUnits p quarter
  let value := i.value * unit
  let below := value / step
  let fits := fun d => 0 < d && i.holds (d * step) unit
  match fits below, fits (below + 1) with
  | true, false => some ⟨below, p⟩
  | false, true => some ⟨below + 1, p⟩
  | false, false => none
  | true, true =>
    let under := value - below * step
    let above := (below + 1) * step - value
    if under < above then some ⟨below, p⟩
    else if above < under then some ⟨below + 1, p⟩
    else some ⟨if below % 2 = 0 then below else below + 1, p⟩

-- The fewest digits that read back to `significand * 2 ^ exponent`. Grids are tried
-- from one place above the leading digit downward.
def shortest (significand : Nat) (exponent : Int) : Decimal :=
  let interval := Interval.around significand exponent
  let top : Int := ((significand.log2 + exponent + 1) * 30103) / 100000 + 1
  let grids := (List.range 20).map fun k : Nat => top - (k : Int)
  (grids.findSome? (onGrid? interval (exponent - 2))).getD ⟨significand, exponent⟩

end Decimal

namespace Binary64

def signText (x : Binary64) : String := if x.isNegative then "-" else ""

def fixedText (places : Nat) (x : Binary64) : String :=
  match x.meaning with
  | .nan => "NaN"
  | .infinite _ => x.signText ++ "inf"
  | .finite _ m e =>
    let one := Nat.pow 10 places
    let scaled :=
      if 0 ≤ e then m * Nat.pow 2 e.toNat * one else roundHalfEven (m * one) (Nat.pow 2 (-e).toNat)
    let whole := scaled / one
    let rest := Nat.repr (scaled % one)
    let padding := String.ofList (List.replicate (places - rest.length) '0')
    x.signText ++ Nat.repr whole ++ "." ++ padding ++ rest

end Binary64
end PluginBridge
