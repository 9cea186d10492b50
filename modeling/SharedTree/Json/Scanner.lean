import SharedTree.Json.Draft
import SharedTree.Text.Hex

/-!
# Scanning JSON text

The scanner goes through a text character by character and keeps a stack of the lists and records
that are open. `Scan.step` is one character, `Scan.finish` the end of the text, and
`Document.ofChars` the fold of the two over a whole text.
-/

namespace SharedTree.Json

/-- A list or record that is open: what was read of it so far, the newest first. -/
inductive Frame where
  /-- A list; the next value is an element. -/
  | item (before : List Draft)
  /-- A record; the next value is a key. -/
  | key (before : List (Draft × Draft))
  /-- A record after a key; the next value belongs to it. -/
  | value (before : List (Draft × Draft)) (key : Draft)

/-- The part of a numeral that was read last. -/
inductive Part where
  | minus | zero | whole | point | fraction | mark | sign | exponent
deriving DecidableEq, Repr

/-- Whether a numeral may end with a part. -/
def Part.mayEnd : Part → Bool
  | .zero | .whole | .fraction | .exponent => true
  | .minus | .point | .mark | .sign => false

/-- What the scanner is in the middle of. -/
inductive Mode where
  /-- A value or a key is due. -/
  | due
  /-- A list or a record was just opened: an element or a key is due, or the end. -/
  | opened
  /-- An element or a member is complete. -/
  | after
  /-- A key is complete. -/
  | colon
  /-- Inside a word, with the letters that are to come. -/
  | word (rest : List Char) (w : Word)
  /-- Inside quotes, with the pieces so far, the newest first. -/
  | quoted (pieces : List Piece)
  /-- After a backslash. -/
  | escape (pieces : List Piece)
  /-- Inside the digits of a unit, with the characters so far, the newest first. -/
  | unit (pieces : List Piece) (seen : List Char)
  /-- Inside a numeral. -/
  | number (part : Part) (n : Numeral)
  /-- The value is complete; only blanks may follow. -/
  | ended (d : Draft)
  /-- A fault was found; what follows does not matter. -/
  | over (document : Document)

/-- The state of the scanner. -/
structure Scan where
  mode : Mode
  stack : List Frame

namespace Scan

/-- The state before the first character. -/
def start : Scan := ⟨.due, []⟩

/-- The draft of a whole text whose reading ends with `d` inside the open lists and records. -/
def enclose (d : Draft) : List Frame → Draft
  | [] => d
  | .item before :: fs => enclose (.list (d :: before).reverse (some .malformed)) fs
  | .key before :: fs =>
    enclose (.record ((d, .missing .malformed) :: before).reverse (some .malformed)) fs
  | .value before key :: fs =>
    enclose (.record ((key, d) :: before).reverse (some .malformed)) fs

/-- The draft of a whole text in which the innermost list or record should have gone on or ended,
and a fault was found instead. -/
def encloseBroken (f : Fault) : List Frame → Draft
  | .item before :: fs => enclose (.list before.reverse (some f)) fs
  | .key before :: fs => enclose (.record before.reverse (some f)) fs
  | fs => enclose (.missing f) fs

/-- Stops at a value that cannot be read on. -/
def stop (d : Draft) (stack : List Frame) : Scan := ⟨.over ⟨enclose d stack, false⟩, []⟩

/-- Stops at a character that neither goes on with the innermost list or record nor ends it. -/
def stopInside (stack : List Frame) : Scan := ⟨.over ⟨encloseBroken .malformed stack, false⟩, []⟩

/-- Goes on after a complete value. A key that is not quoted ends the reading. -/
def deliver (d : Draft) : List Frame → Scan
  | [] => ⟨.ended d, []⟩
  | .item before :: fs => ⟨.after, .item (d :: before) :: fs⟩
  | .key before :: fs => match d with
    | .quoted _ => ⟨.colon, .value before d :: fs⟩
    | _ => stop d (.key before :: fs)
  | .value before key :: fs => ⟨.after, .key ((key, d) :: before) :: fs⟩

/-- The blanks of JSON. -/
def isBlank (c : Char) : Bool := c = ' ' || c = '\n' || c = '\r' || c = '\t'

/-- The decimal digits. -/
def isDigit (c : Char) : Bool := '0' ≤ c && c ≤ '9'

/-- The first character of a value. -/
def begin (c : Char) (stack : List Frame) : Scan :=
  if c = '"' then ⟨.quoted [], stack⟩
  else if c = '[' then ⟨.opened, .item [] :: stack⟩
  else if c = '\x7b' then ⟨.opened, .key [] :: stack⟩
  else if c = 'n' then ⟨.word ['u', 'l', 'l'] .null, stack⟩
  else if c = 't' then ⟨.word ['r', 'u', 'e'] .true, stack⟩
  else if c = 'f' then ⟨.word ['a', 'l', 's', 'e'] .false, stack⟩
  else if c = '-' then ⟨.number .minus { negative := true }, stack⟩
  else if c = '0' then ⟨.number .zero { whole := [c] }, stack⟩
  else if isDigit c then ⟨.number .whole { whole := [c] }, stack⟩
  else stop (.missing .malformed) stack

/-- What a character does to a numeral. -/
inductive Progress where
  | more (part : Part) (n : Numeral)
  | complete
  | broken

/-- A numeral with one more digit after the point. -/
private def addFraction (n : Numeral) (c : Char) : Numeral :=
  { n with fraction := some (n.fraction.getD [] ++ [c]) }

/-- A numeral with one more digit in the exponent. -/
private def addExponent (n : Numeral) (c : Char) : Numeral :=
  let (negative, digits) := n.exponent.getD (false, [])
  { n with exponent := some (negative, digits ++ [c]) }

/-- A point, the mark of an exponent, or the end of a numeral. -/
private def tail (afterWhole : Bool) (n : Numeral) (c : Char) : Progress :=
  if c = '.' && afterWhole then .more .point n
  else if c = 'e' || c = 'E' then .more .mark n
  else .complete

/-- Reads a numeral on by one character. -/
def numeralStep (n : Numeral) (c : Char) : Part → Progress
  | .minus =>
    if c = '0' then .more .zero { n with whole := [c] }
    else if isDigit c then .more .whole { n with whole := [c] }
    else .broken
  | .zero => if isDigit c then .broken else tail true n c
  | .whole => if isDigit c then .more .whole { n with whole := n.whole ++ [c] } else tail true n c
  | .point => if isDigit c then .more .fraction (addFraction n c) else .broken
  | .fraction => if isDigit c then .more .fraction (addFraction n c) else tail false n c
  | .mark =>
    if c = '+' then .more .sign { n with exponent := some (false, []) }
    else if c = '-' then .more .sign { n with exponent := some (true, []) }
    else if isDigit c then .more .exponent (addExponent n c)
    else .broken
  | .sign => if isDigit c then .more .exponent (addExponent n c) else .broken
  | .exponent => if isDigit c then .more .exponent (addExponent n c) else .complete

/-- The character after a backslash, where it is not the start of a unit. -/
def unescape (c : Char) : Option Char :=
  if c = '"' || c = '\\' || c = '/' then some c
  else if c = 'b' then some '\x08'
  else if c = 'f' then some '\x0c'
  else if c = 'n' then some '\n'
  else if c = 'r' then some '\r'
  else if c = 't' then some '\t'
  else none

/-- Ends a quoted text. -/
private def endQuoted (pieces : List Piece) (broken : Option Fault) : Draft :=
  .quoted ⟨pieces.reverse, broken⟩

/-- The step after the characters of a unit. They are looked at when there are four bytes of
them. -/
private def unitStep (pieces : List Piece) (seen : List Char) (stack : List Frame) : Scan :=
  if (String.ofList seen).utf8ByteSize < 4 then ⟨.unit pieces seen, stack⟩
  else match seen.length, Text.ofHex? seen.reverse with
    | 4, some code => ⟨.quoted (.unit code :: pieces), stack⟩
    | _, _ => stop (endQuoted pieces (some .malformed)) stack

/-- One character outside numerals. -/
def plainStep (s : Scan) (c : Char) : Scan :=
  match s.mode with
  | .due => if isBlank c then s else begin c s.stack
  | .opened =>
    if isBlank c then s
    else match c, s.stack with
      | ']', .item before :: fs => deliver (.list before.reverse none) fs
      | '\x7d', .key before :: fs => deliver (.record before.reverse none) fs
      | c, stack => begin c stack
  | .after =>
    if isBlank c then s
    else match c, s.stack with
      | ',', stack => ⟨.due, stack⟩
      | ']', .item before :: fs => deliver (.list before.reverse none) fs
      | '\x7d', .key before :: fs => deliver (.record before.reverse none) fs
      | _, stack => stopInside stack
  | .colon =>
    if isBlank c then s
    else if c = ':' then ⟨.due, s.stack⟩
    else stopInside s.stack
  | .word [] w => deliver (.word w) s.stack
  | .word (r :: rest) w =>
    if c = r then if rest.isEmpty then deliver (.word w) s.stack else ⟨.word rest w, s.stack⟩
    else stop (.brokenWord .malformed) s.stack
  | .quoted pieces =>
    if c = '"' then deliver (endQuoted pieces none) s.stack
    else if c = '\\' then ⟨.escape pieces, s.stack⟩
    else if c.toNat < 0x20 then stop (endQuoted pieces (some .malformed)) s.stack
    else ⟨.quoted (.char c :: pieces), s.stack⟩
  | .escape pieces =>
    if c = 'u' then ⟨.unit pieces [], s.stack⟩
    else match unescape c with
      | some e => ⟨.quoted (.char e :: pieces), s.stack⟩
      | none => stop (endQuoted pieces (some .malformed)) s.stack
  | .unit pieces seen => unitStep pieces (c :: seen) s.stack
  | .number _ _ => s
  | .ended d => if isBlank c then s else ⟨.over ⟨d, true⟩, []⟩
  | .over _ => s

/-- One character. A numeral ends at the first character that does not belong to it. -/
def step (s : Scan) (c : Char) : Scan :=
  match s.mode with
  | .number part n => match numeralStep n c part with
    | .more part n => ⟨.number part n, s.stack⟩
    | .complete => plainStep (deliver (.number n) s.stack) c
    | .broken => stop (.brokenNumber .malformed) s.stack
  | _ => plainStep s c

/-- The draft that a state stands for when the text ends there, numerals apart. -/
def finishPlain (s : Scan) : Document :=
  match s.mode with
  | .over document => document
  | .ended d => ⟨d, false⟩
  | .due => ⟨enclose (.missing .cutShort) s.stack, false⟩
  | .opened | .after | .colon => ⟨encloseBroken .cutShort s.stack, false⟩
  | .word _ _ => ⟨enclose (.brokenWord .cutShort) s.stack, false⟩
  | .quoted pieces | .escape pieces | .unit pieces _ =>
    ⟨enclose (endQuoted pieces (some .cutShort)) s.stack, false⟩
  | .number _ _ => ⟨enclose (.brokenNumber .cutShort) s.stack, false⟩

/-- The end of the text. -/
def finish (s : Scan) : Document :=
  match s.mode with
  | .number part n =>
    if part.mayEnd then finishPlain (deliver (.number n) s.stack) else finishPlain s
  | _ => finishPlain s

end Scan

/-- The draft of a text. -/
def Document.ofChars (cs : List Char) : Document := (cs.foldl Scan.step Scan.start).finish

end SharedTree.Json
