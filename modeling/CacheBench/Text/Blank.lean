/-!
# Blank characters, lists of words and lines

Blanks are the characters with the Unicode property `White_Space`. Lists of hosts are words between
commas, with blanks around a word and empty words left out.
-/

namespace CacheBench.Text

def isBlank (c : Char) : Bool :=
  let n := c.toNat
  (9 ≤ n && n ≤ 13) || n = 0x20 || n = 0x85 || n = 0xa0 || n = 0x1680 ||
    (0x2000 ≤ n && n ≤ 0x200a) || n = 0x2028 || n = 0x2029 || n = 0x202f || n = 0x205f ||
    n = 0x3000

def trimChars (cs : List Char) : List Char :=
  ((cs.dropWhile isBlank).reverse.dropWhile isBlank).reverse

def trim (s : String) : String := String.ofList (trimChars s.toList)

/-- The parts between the marks, one more than there are marks. -/
def splitChars (mark : Char) : List Char → List (List Char)
  | [] => [[]]
  | c :: cs =>
    let parts := splitChars mark cs
    if c = mark then [] :: parts
    else match parts with
      | [] => [[c]]
      | p :: ps => (c :: p) :: ps

def commaList (s : String) : List String :=
  (((splitChars ',' s.toList).map trimChars).filter fun w => !w.isEmpty).map String.ofList

/-- The lines of a text. Each one ends in a line feed, or a carriage return with a line feed, which
are left out; the last one may end without. -/
def lines (s : String) : List String :=
  let parts := splitChars '\n' s.toList
  let ended := parts.dropLast.map fun l => if l.getLast? = some '\r' then l.dropLast else l
  (ended ++ (parts.getLast?.filter fun l => !l.isEmpty).toList).map String.ofList

end CacheBench.Text
