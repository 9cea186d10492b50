import SharedTree.Text.Blank
import SharedTree.Text.Hex

/-!
# Flags

Thirty-two bits that every node carries. Fourteen of them have names; the others are kept as they
are. The text form of a set of flags lists the names of its bits and then the bits without a name
as one hexadecimal number; `Flags.ofSpelling?` reads it back, and reads masks as well.
-/

namespace SharedTree

/-- A set of flags. -/
structure Flags where
  bits : UInt32 := 0
deriving DecidableEq, Repr, Inhabited

namespace Flags

/-! ### The named flags -/

/-- On declarations that are visible outside of their file. -/
def exported : Flags := ⟨0x1⟩

/-- On declarations without an implementation. -/
def ambient : Flags := ⟨0x2⟩

/-- The modifiers of members. -/
def isPublic : Flags := ⟨0x4⟩

@[inherit_doc isPublic]
def isPrivate : Flags := ⟨0x8⟩

@[inherit_doc isPublic]
def isProtected : Flags := ⟨0x10⟩

@[inherit_doc isPublic]
def isStatic : Flags := ⟨0x20⟩

/-- On the default export of a file. -/
def isDefault : Flags := ⟨0x40⟩

/-- On functions that may wait. -/
def isAsync : Flags := ⟨0x80⟩

/-- On variables of a block that may change. -/
def isLet : Flags := ⟨0x100⟩

/-- On variables of a block that may not change. -/
def isConst : Flags := ⟨0x200⟩

/-- On numerals in octal notation. -/
def octalLiteral : Flags := ⟨0x400⟩

/-- On members that may be left out. -/
def optionalMember : Flags := ⟨0x800⟩

/-- On nodes that were read from faulty text. -/
def hasError : Flags := ⟨0x1000⟩

/-- On nodes that a transform has made. -/
def synthesized : Flags := ⟨0x2000⟩

/-- The flags of one bit and their names, in the order of their bits. -/
def singles : List (String × Flags) := [
  ("EXPORT", exported), ("AMBIENT", ambient), ("PUBLIC", isPublic), ("PRIVATE", isPrivate),
  ("PROTECTED", isProtected), ("STATIC", isStatic), ("DEFAULT", isDefault), ("ASYNC", isAsync),
  ("LET", isLet), ("CONST", isConst), ("OCTAL_LITERAL", octalLiteral),
  ("OPTIONAL_MEMBER", optionalMember), ("THIS_NODE_HAS_ERROR", hasError),
  ("SYNTHESIZED", synthesized)]

/-- Names for several flags at once: the modifiers, those among them that say who may use a
member, and the two that scope a variable to its block. -/
def masks : List (String × Flags) := [
  ("MODIFIER", ⟨0xFF⟩), ("ACCESSIBILITY_MODIFIER", ⟨0x1C⟩), ("BLOCK_SCOPED", ⟨0x300⟩)]

/-- All names that the text form knows. -/
def constants : List (String × Flags) := singles ++ masks

/-- All named flags together. -/
def all : Flags := ⟨0x3FFF⟩

/-! ### Set operations -/

/-- The flags of either set. -/
def union (f g : Flags) : Flags := ⟨f.bits ||| g.bits⟩

/-- The flags of both sets. -/
def inter (f g : Flags) : Flags := ⟨f.bits &&& g.bits⟩

/-- The flags of the first set that are not in the second. -/
def diff (f g : Flags) : Flags := ⟨f.bits &&& ~~~g.bits⟩

/-- The flags of exactly one of the sets. -/
def symmDiff (f g : Flags) : Flags := ⟨f.bits ^^^ g.bits⟩

/-- The named flags that are not set. -/
def complement (f : Flags) : Flags := all.diff f

/-- Whether no bit is set, with or without a name. -/
def isEmpty (f : Flags) : Bool := f.bits == 0

/-- Whether all flags of `g` are set in `f`. -/
def contains (f g : Flags) : Bool := f.bits &&& g.bits == g.bits

/-- Whether some flag of `g` is set in `f`. -/
def intersects (f g : Flags) : Bool := f.bits &&& g.bits != 0

/-- The flags among those that have names. -/
def known (f : Flags) : Flags := f.inter all

/-- The bits that have no name. -/
def nameless (f : Flags) : Flags := f.diff all

/-- The single flags that are set. -/
def names (f : Flags) : List (String × Flags) := singles.filter fun s => f.contains s.2

/-! ### The text form -/

/-- The words of the text form. -/
def words (f : Flags) : List (List Char) :=
  f.names.map (fun s => s.1.toList)
    ++ if f.nameless.isEmpty then []
       else ['0' :: 'x' :: Text.hexDigits f.nameless.bits.toNat]

/-- The text form: words with bars between them, and nothing at all for no flags. -/
def spelling (f : Flags) : List Char := List.intercalate [' ', '|', ' '] f.words

/-- The flags that one word stands for: the value of a hexadecimal numeral of at most 32 bits, or
the constant of that name. A plus sign may stand before the digits. -/
def ofWord? : List Char → Option Flags
  | '0' :: 'x' :: digits =>
    let digits := match digits with
      | '+' :: ds => ds
      | ds => ds
    match Text.ofHex? digits with
    | some n => if n < UInt32.size then some ⟨n.toUInt32⟩ else none
    | none => none
  | word => (constants.find? fun s => s.1.toList == word).map (·.2)

/-- The union of the flags that words stand for. -/
def ofWords? : List (List Char) → Option Flags
  | [] => some {}
  | w :: ws => match ofWord? (Text.trim w), ofWords? ws with
    | some f, some g => some (f.union g)
    | _, _ => none

/-- The flags that a text stands for. A blank text stands for none; otherwise there is a word
between any two bars, blanks around it do not count, and one bad word spoils the text. -/
def ofSpelling? (cs : List Char) : Option Flags :=
  if (Text.trim cs).isEmpty then some {} else ofWords? (Text.split '|' cs)

end Flags

end SharedTree
