namespace PluginBridge

-- The characters of Unicode's property White_Space.
def isBlankChar (c : Char) : Bool :=
  let n := c.toNat
  (9 ≤ n && n ≤ 13) || n == 0x20 || n == 0x85 || n == 0xA0 || n == 0x1680 ||
    (0x2000 ≤ n && n ≤ 0x200A) || n == 0x2028 || n == 0x2029 || n == 0x202F || n == 0x205F ||
    n == 0x3000

namespace Text

def trimStartChars (text : List Char) : List Char := text.dropWhile isBlankChar

def trimChars (text : List Char) : List Char :=
  (trimStartChars (trimStartChars text).reverse).reverse

def trim (text : String) : String := String.ofList (trimChars text.toList)

def isBlank (text : String) : Bool := text.toList.all isBlankChar

def splitChars (separates : Char → Bool) (part : List Char) : List Char → List (List Char)
  | [] => [part.reverse]
  | c :: rest =>
    if separates c then part.reverse :: splitChars separates [] rest
    else splitChars separates (c :: part) rest

def split (separates : Char → Bool) (text : String) : List String :=
  (splitChars separates [] text.toList).map String.ofList

def words (text : String) : List String := (split isBlankChar text).filter (· ≠ "")

end Text
end PluginBridge
