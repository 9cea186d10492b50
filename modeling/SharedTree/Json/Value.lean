/-!
# JSON values and how they are written

`Json` holds the values that this library writes. They are written in one of two layouts: on one
line without blanks, or with one element to a line and two blanks for each level.
-/

namespace SharedTree

/-- A JSON value. -/
inductive Json where
  | null
  | number (n : Nat)
  | text (s : String)
  | list (items : List Json)
  | record (members : List (String × Json))

namespace Json

/-- What stands between the parts of a value: `gap n` before an element at level `n` and before the
bracket that closes a value there, and `colon` after a key. -/
structure Layout where
  gap : Nat → List Char
  colon : List Char

/-- Everything on one line. -/
def Layout.compact : Layout := ⟨fun _ => [], [':']⟩

/-- One element to a line, indented by two blanks for each level. -/
def Layout.indented : Layout := ⟨fun n => '\n' :: List.replicate (2 * n) ' ', [':', ' ']⟩

/-- The digit of a number below sixteen. -/
def hexDigit (n : Nat) : Char := Nat.digitChar n

/-- How a character is written inside quotes. -/
def escape (c : Char) : List Char :=
  if c = '"' then ['\\', '"']
  else if c = '\\' then ['\\', '\\']
  else if c = '\x08' then ['\\', 'b']
  else if c = '\x0c' then ['\\', 'f']
  else if c = '\n' then ['\\', 'n']
  else if c = '\r' then ['\\', 'r']
  else if c = '\t' then ['\\', 't']
  else if c.toNat < 0x20 then
    ['\\', 'u', '0', '0', hexDigit (c.toNat / 16), hexDigit (c.toNat % 16)]
  else [c]

/-- A text in quotes before what follows. -/
def quote (s : String) (rest : List Char) : List Char :=
  '"' :: (s.toList.flatMap escape ++ '"' :: rest)

mutual

/-- A value written at a level before what follows. -/
def write (l : Layout) (level : Nat) : Json → List Char → List Char
  | .null, rest => 'n' :: 'u' :: 'l' :: 'l' :: rest
  | .number n, rest => Nat.toDigits 10 n ++ rest
  | .text s, rest => quote s rest
  | .list [], rest => '[' :: ']' :: rest
  | .list (j :: js), rest =>
    '[' :: (l.gap (level + 1) ++ write l (level + 1) j
      (writeItems l (level + 1) js (l.gap level ++ ']' :: rest)))
  | .record [], rest => '\x7b' :: '\x7d' :: rest
  | .record (m :: ms), rest =>
    '\x7b' :: (l.gap (level + 1) ++ writeMember l (level + 1) m
      (writeMembers l (level + 1) ms (l.gap level ++ '\x7d' :: rest)))

/-- The elements of a list after the first. -/
def writeItems (l : Layout) (level : Nat) : List Json → List Char → List Char
  | [], rest => rest
  | j :: js, rest => ',' :: (l.gap level ++ write l level j (writeItems l level js rest))

/-- A key and its value. -/
def writeMember (l : Layout) (level : Nat) : String × Json → List Char → List Char
  | (key, j), rest => quote key (l.colon ++ write l level j rest)

/-- The members of a record after the first. -/
def writeMembers (l : Layout) (level : Nat) : List (String × Json) → List Char → List Char
  | [], rest => rest
  | m :: ms, rest => ',' :: (l.gap level ++ writeMember l level m (writeMembers l level ms rest))

end

/-- The text of a value in a layout. -/
def toText (l : Layout) (j : Json) : String := String.ofList (j.write l 0 [])

mutual

/-- The number of brackets and braces that are open at the innermost point of a value. -/
def depth : Json → Nat
  | .null | .number _ | .text _ => 0
  | .list js => 1 + depthItems js
  | .record ms => 1 + depthMembers ms

/-- The greatest depth of the elements of a list. -/
def depthItems : List Json → Nat
  | [] => 0
  | j :: js => max (depth j) (depthItems js)

/-- The greatest depth of the values of a record. -/
def depthMembers : List (String × Json) → Nat
  | [] => 0
  | (_, j) :: ms => max (depth j) (depthMembers ms)

end

end Json

end SharedTree
