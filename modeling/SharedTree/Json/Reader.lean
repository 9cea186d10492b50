import SharedTree.Json.Scanner

/-!
# Reading values from drafts

Readers take a draft to a value, and meet faults in the order of the text. Lists and records that
are read count against a budget of nesting; values that are skipped do not.

A structure is a record with one member for each field, in any order and with other members between
them, or a list of the values of its fields. A variant is the quoted name of a case without content,
or a record of one member from the name of a case to its content.
-/

namespace SharedTree.Json

/-- What reading yields. -/
abbrev Reading : Type → Type := Except Fault

namespace Draft

variable {α κ : Type}

/-- The fault of a list or record that is nested too deep to be read, and of anything else where a
list or record is due. -/
def unopened : Draft → Fault
  | .list _ _ | .record _ _ => .malformed
  | d => d.refusal

/-! ### Plain values -/

/-- A text. -/
def readText : Draft → Reading String
  | .quoted q => q.read
  | d => .error d.refusal

/-- A number of 32 bits. -/
def readNumber : Draft → Reading UInt32
  | .number n => match n.natural? with
    | some m => if m < UInt32.size then .ok m.toUInt32 else .error (Draft.number n).refusal
    | none => .error (Draft.number n).refusal
  | d => .error d.refusal

/-- Nothing. -/
def readNull : Draft → Reading Unit
  | .word .null => .ok ()
  | d => .error d.refusal

/-- A value, or nothing. -/
def readOption (read : Draft → Reading α) : Draft → Reading (Option α)
  | .word .null => .ok none
  | d => (read d).map some

/-- The elements of a list, up to a fault at its end. -/
def readItems (read : Draft → Reading α) (broken : Option Fault) : List Draft → Reading (List α)
  | [] => match broken with
    | none => .ok []
    | some f => .error f
  | d :: ds => do
    let a ← read d
    let rest ← readItems read broken ds
    return a :: rest

/-- A list of numbers. The argument tells whether a list may be opened. -/
def readNumbers (mayOpen : Bool) : Draft → Reading (List UInt32)
  | .list items broken => if mayOpen then readItems readNumber broken items else .error .malformed
  | d => .error d.refusal

/-! ### Structures -/

/-- The key of a member of a structure. -/
def readKey : Draft → Reading String
  | .quoted q => q.read
  | .missing .cutShort => .error .cutShort
  | _ => .error .malformed

/-- Takes the members of a record one by one: `take` those that are fields and skip the others. -/
def takeMembers (fields : List String) (take : String → Draft → α → Reading α)
    (broken : Option Fault) : List (Draft × Draft) → α → Reading α
  | [], a => match broken with
    | none => .ok a
    | some f => .error f
  | (key, d) :: rest, a => do
    let name ← readKey key
    if fields.contains name then
      let a ← take name d a
      takeMembers fields take broken rest a
    else match d.fault with
      | some f => .error f
      | none => takeMembers fields take broken rest a

/-- Takes the elements of a list as the values of the fields in order. A list that ends early has
the fault `short`, if that is one, and a longer list is no JSON for a structure. -/
def takeItems (short : Option Fault) (take : String → Draft → α → Reading α)
    (broken : Option Fault) : List String → List Draft → α → Reading α
  | [], [], a => match broken with
    | none => .ok a
    | some f => .error f
  | [], _ :: _, _ => .error .malformed
  | name :: names, d :: ds, a => do
    let a ← take name d a
    takeItems short take broken names ds a
  | _ :: _, [], a => match broken, short with
    | some f, _ => .error f
    | none, some f => .error f
    | none, none => .ok a

/-- Takes a structure apart, with `take` for each of its fields as it is met. -/
def readStructure (fields : List String) (short : Option Fault)
    (take : String → Draft → α → Reading α) (a : α) : Draft → Reading α
  | .list items broken => takeItems short take broken fields items a
  | .record members broken => takeMembers fields take broken members a
  | d => .error d.refusal

/-- A value that is taken for the first time. -/
def takeOnce (old : Option α) (read : Reading α) : Reading (Option α) :=
  match old with
  | none => read.map some
  | some _ => .error .mismatched

/-- A value that must have been taken. -/
def required : Option α → Reading α
  | some a => .ok a
  | none => .error .mismatched

/-! ### Variants -/

/-- The case of a given name. -/
def readCase (lookup : String → Option κ) (name : Reading String) : Reading κ := do
  match lookup (← name) with
  | some k => return k
  | none => .error .mismatched

/-- Reads a variant. `lookup` finds a case by its name, `bare` is the value of a case that stands
alone, and `content` reads the content of a case, where a record may be opened. -/
def readVariant (lookup : String → Option κ) (bare : κ → Reading α)
    (content : Option (κ → Draft → Reading α)) : Draft → Reading α
  | .quoted q => do
    let k ← readCase lookup q.read
    bare k
  | .record members broken => match content with
    | none => .error .malformed
    | some content => match members, broken with
      | [], some f => .error f
      | [], none => .error .malformed
      | (name, d) :: rest, broken => do
        let k ← readCase lookup (readKey name)
        let a ← content k d
        match rest, broken with
        | _ :: _, _ => .error .malformed
        | [], some f => .error f
        | [], none => return a
  | .missing f => .error f
  | _ => .error .malformed

/-- Reads a case of a variant whose cases have no content. -/
def readName (lookup : String → Option κ) (mayOpen : Bool) : Draft → Reading κ :=
  readVariant lookup .ok (if mayOpen then some fun k d => d.readNull.map fun _ => k else none)

end Draft

/-- The number of lists and records that may be open at once. -/
def nestingLimit : Nat := 127

/-- Reads the value of a whole text, after which only blanks may follow. -/
def Document.read {α : Type} (read : Draft → Reading α) (document : Document) : Reading α := do
  let a ← read document.value
  if document.trailing then .error .malformed else return a

end SharedTree.Json
