namespace PluginBridge

structure Duration where
  millis : Nat
deriving DecidableEq, Inhabited, Repr

def dropLastZeros (digits : List Char) : List Char := (digits.reverse.dropWhile (· == '0')).reverse

-- Milliseconds below one second, from there on seconds with as many places as needed.
def Duration.text (d : Duration) : String :=
  if d.millis = 0 then "0ns"
  else if d.millis < 1000 then d.millis.repr ++ "ms"
  else
    let rest := d.millis % 1000
    let digits := Nat.toDigits 10 rest
    let padded := List.replicate (3 - digits.length) '0' ++ digits
    let places := if rest = 0 then [] else '.' :: dropLastZeros padded
    (d.millis / 1000).repr ++ String.ofList places ++ "s"

end PluginBridge
