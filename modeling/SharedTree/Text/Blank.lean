/-!
# Blank characters and pieces of text

The white space of Unicode, and the two ways in which short lists of words are taken apart:
cutting at a separator and dropping blanks at the ends.
-/

namespace SharedTree.Text

/-- The characters that Unicode counts as white space. -/
def isBlank (c : Char) : Bool :=
  let n := c.toNat
  (0x09 ≤ n && n ≤ 0x0D) || n == 0x20 || n == 0x85 || n == 0xA0 || n == 0x1680
    || (0x2000 ≤ n && n ≤ 0x200A) || n == 0x2028 || n == 0x2029 || n == 0x202F || n == 0x205F
    || n == 0x3000

/-- A text without the blanks at its two ends. -/
def trim (cs : List Char) : List Char :=
  ((cs.dropWhile isBlank).reverse.dropWhile isBlank).reverse

/-- The pieces of a text between the occurrences of a separator; there is always at least one. -/
def split (sep : Char) : List Char → List (List Char)
  | [] => [[]]
  | c :: cs =>
    if c = sep then [] :: split sep cs
    else match split sep cs with
      | [] => [[c]]
      | piece :: rest => (c :: piece) :: rest

end SharedTree.Text
