import SharedTree.Json.Numeral

/-!
# Drafts of JSON values

A draft records what stands in a text, as far as it can be read: every value, and where the text
stops making sense the fault that was found there. Nothing after the first fault is recorded, so
that a reader who walks a draft in the order of the text meets faults of the text and faults of its
own in the order in which they occur.
-/

namespace SharedTree.Json

/-- Why a text cannot be read: it ends too early, it is not JSON, or it holds something else than
what is due. -/
inductive Fault where
  | cutShort
  | malformed
  | mismatched
deriving DecidableEq, Repr, Inhabited

/-- A piece of a quoted text: a character, or a 16-bit unit that is written as four digits. -/
inductive Piece where
  | char (c : Char)
  | unit (code : Nat)
deriving DecidableEq, Repr

/-- A quoted text, and the fault that ended it if it was not closed. -/
structure Quoted where
  pieces : List Piece
  broken : Option Fault := none
deriving DecidableEq, Repr, Inhabited

/-- The words that are values. -/
inductive Word where
  | null | true | false
deriving DecidableEq, Repr, Inhabited

/-- What was found where a value is due. -/
inductive Draft where
  /-- No value begins here. -/
  | missing (f : Fault)
  | word (w : Word)
  /-- A word that goes wrong after its first letter. -/
  | brokenWord (f : Fault)
  | number (n : Numeral)
  /-- A numeral that goes wrong after its first character. -/
  | brokenNumber (f : Fault)
  | quoted (q : Quoted)
  /-- A list, and the fault found instead of its end. -/
  | list (items : List Draft) (broken : Option Fault)
  /-- A record of keys and values, and the fault found instead of its end. -/
  | record (members : List (Draft × Draft)) (broken : Option Fault)
deriving Inhabited

/-- A text as a whole: the value in it, and whether anything but blanks follows. -/
structure Document where
  value : Draft
  trailing : Bool := false

/-! ### Quoted texts -/

/-- Reads the pieces of a text. A unit in the first half of a pair has to be followed by one in the
second half, and the two stand for one character. -/
def readPieces (broken : Option Fault) : List Piece → Except Fault (List Char)
  | [] => match broken with
    | none => .ok []
    | some f => .error f
  | .char c :: rest => (readPieces broken rest).map (c :: ·)
  | .unit code :: rest =>
    if code < 0xD800 || 0xE000 ≤ code then (readPieces broken rest).map (Char.ofNat code :: ·)
    else if 0xDC00 ≤ code then .error .malformed
    else match rest with
      | .unit low :: rest =>
        if 0xDC00 ≤ low && low < 0xE000 then
          (readPieces broken rest).map
            (Char.ofNat (0x10000 + (code - 0xD800) * 0x400 + (low - 0xDC00)) :: ·)
        else .error .malformed
      | .char _ :: _ => .error .malformed
      | [] => .error (broken.getD .malformed)

/-- The text that is quoted. -/
def Quoted.read (q : Quoted) : Except Fault String :=
  (readPieces q.broken q.pieces).map String.ofList

/-! ### Values of a kind that is not due, and values that are skipped -/

namespace Draft

/-- The fault of a value where a value of another kind is due. Words, numbers and texts are read to
their end first; a list or a record is refused at its first bracket. -/
def refusal : Draft → Fault
  | .missing f | .brokenWord f | .brokenNumber f => f
  | .word _ => .mismatched
  | .number n => if n.overflows then .malformed else .mismatched
  | .quoted q => match q.read with
    | .ok _ => .mismatched
    | .error f => f
  | .list _ _ | .record _ _ => .mismatched

/-- The fault of a key that is skipped. -/
def keyFault : Draft → Option Fault
  | .quoted q => q.broken
  | .missing .cutShort => some .cutShort
  | _ => some .malformed

mutual

/-- The first fault in a value that is skipped: it has to be JSON, but no more. -/
def fault : Draft → Option Fault
  | .missing f | .brokenWord f => some f
  | .word _ | .number _ => none
  | .brokenNumber _ => some .malformed
  | .quoted q => q.broken
  | .list items broken => faultItems broken items
  | .record members broken => faultMembers broken members

/-- The first fault in the elements of a list or at its end. -/
def faultItems (broken : Option Fault) : List Draft → Option Fault
  | [] => broken
  | d :: ds => match fault d with
    | some f => some f
    | none => faultItems broken ds

/-- The first fault in the members of a record or at its end. -/
def faultMembers (broken : Option Fault) : List (Draft × Draft) → Option Fault
  | [] => broken
  | (key, value) :: ms => match keyFault key with
    | some f => some f
    | none => match fault value with
      | some f => some f
      | none => faultMembers broken ms

end

end Draft

end SharedTree.Json
