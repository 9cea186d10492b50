import SharedTree.Json.Reader
import SharedTree.Json.Value
import Mathlib.Tactic.IntervalCases

/-!
# Scanning what was written

The scanner finds in the text of a value just that value: no fault, and no numeral that ends too early. `Json.draft` is
the draft of a value, and `Document.ofChars_toText` says that it is what the text comes to, in any layout that puts
only blanks between the parts.

* `Scan.document` runs the scanner from a state to the end of a text, so that what was written before can be forgotten.
* A numeral ends at the character behind it. What is behind a value is therefore assumed to be `Delimited`.
* `Scan.document_write` and its companions follow the recursion of the writer: from where a value is due, the text of
  a value leads to where it is delivered.
-/

namespace SharedTree.Json

open Scan

/-- How a character stands in a quoted text: control characters without a letter of their own are written as units. -/
def pieceOf (c : Char) : Piece :=
  if c.toNat < 0x20 ∧ c ∉ ['\x08', '\x0c', '\n', '\r', '\t'] then .unit c.toNat else .char c

/-- A text in quotes. -/
def quotedOf (s : String) : Quoted := ⟨s.toList.map pieceOf, none⟩

mutual

/-- The draft of a value. -/
def draft : Json → Draft
  | .null => .word .null
  | .number n => .number { whole := Nat.toDigits 10 n }
  | .text s => .quoted (quotedOf s)
  | .list js => .list (draftItems js) none
  | .record ms => .record (draftMembers ms) none

/-- The drafts of the elements of a list. -/
def draftItems : List Json → List Draft
  | [] => []
  | j :: js => draft j :: draftItems js

/-- The drafts of the members of a record. -/
def draftMembers : List (String × Json) → List (Draft × Draft)
  | [] => []
  | m :: ms => draftMember m :: draftMembers ms

/-- The draft of a key and its value. -/
def draftMember : String × Json → Draft × Draft
  | (key, j) => (.quoted (quotedOf key), draft j)

end

namespace Scan

/-- The document that a state and the text after it come to. -/
def document (s : Scan) (cs : List Char) : Document := (cs.foldl step s).finish

private theorem document_cons (s : Scan) (c : Char) (cs : List Char) :
    s.document (c :: cs) = (s.step c).document cs := rfl

private theorem document_append (s : Scan) (xs ys : List Char) :
    s.document (xs ++ ys) = (xs.foldl step s).document ys := by
  simp only [document, List.foldl_append]

/-! ### Quoted texts -/

private theorem foldl_unit (stack : List Frame) (ps : List Piece) (n : Nat) (hn : n < 0x20) :
    ['0', '0', hexDigit (n / 16), hexDigit (n % 16)].foldl step ⟨.unit ps [], stack⟩ =
      ⟨.quoted (.unit n :: ps), stack⟩ := by
  interval_cases n <;> rfl

private theorem foldl_escape (c : Char) (ps : List Piece) (stack : List Frame) :
    (escape c).foldl step ⟨.quoted ps, stack⟩ = ⟨.quoted (pieceOf c :: ps), stack⟩ := by
  unfold escape
  split_ifs with h₁ h₂ h₃ h₄ h₅ h₆ h₇ h₈
  iterate 7 (subst c; rfl)
  · have piece : pieceOf c = .unit c.toNat := by
      rw [pieceOf, if_pos]
      simp only [List.mem_cons, List.not_mem_nil, or_false, not_or]
      exact ⟨h₈, h₃, h₄, h₅, h₆, h₇⟩
    rw [piece]
    exact foldl_unit stack ps c.toNat h₈
  · have piece : pieceOf c = .char c := by
      rw [pieceOf, if_neg]
      exact fun h => h₈ h.1
    rw [piece]
    show (if c = '"' then _ else if c = '\\' then _ else if c.toNat < 0x20 then _ else _ : Scan) = _
    rw [if_neg h₁, if_neg h₂, if_neg h₈]

private theorem document_quoted (cs : List Char) (ps : List Piece) (stack : List Frame) (rest : List Char) :
    document ⟨.quoted ps, stack⟩ (cs.flatMap escape ++ '"' :: rest) =
      document (deliver (.quoted ⟨ps.reverse ++ cs.map pieceOf, none⟩) stack) rest := by
  induction cs generalizing ps with
  | nil =>
    rw [List.map_nil, List.append_nil]
    rfl
  | cons c cs ih =>
    rw [List.flatMap_cons, List.append_assoc, document_append, foldl_escape, ih]
    simp

/-! ### Numerals -/

theorem deliver_cases (d : Draft) (stack : List Frame) :
    ∃ m fs, deliver d stack = ⟨m, fs⟩ ∧ ∀ part n, m ≠ .number part n := by
  cases stack with
  | nil => exact ⟨_, _, rfl, nofun⟩
  | cons f fs =>
    cases f with
    | item before => exact ⟨_, _, rfl, nofun⟩
    | value before key => exact ⟨_, _, rfl, nofun⟩
    | key before => cases d <;> exact ⟨_, _, rfl, nofun⟩

private theorem step_deliver (d : Draft) (stack : List Frame) (c : Char) :
    step (deliver d stack) c = plainStep (deliver d stack) c := by
  obtain ⟨m, fs, h, plain⟩ := deliver_cases d stack
  rw [h]
  cases m <;> first | rfl | exact absurd rfl (plain _ _)

private theorem finish_deliver (d : Draft) (stack : List Frame) :
    finish (deliver d stack) = finishPlain (deliver d stack) := by
  obtain ⟨m, fs, h, plain⟩ := deliver_cases d stack
  rw [h]
  cases m <;> first | rfl | exact absurd rfl (plain _ _)

/-- A character at which a numeral ends. -/
def Delimits (c : Char) : Bool := !(isDigit c || c = '.' || c = 'e' || c = 'E')

/-- A text behind a numeral with which the numeral does not go on. -/
def Delimited (rest : List Char) : Prop := ∀ c ∈ rest.head?, Delimits c = true

private theorem document_number_ended {part : Part} (hp : part = .zero ∨ part = .whole) (n : Numeral)
    (stack : List Frame) {rest : List Char} (h : Delimited rest) :
    document ⟨.number part n, stack⟩ rest = document (deliver (.number n) stack) rest := by
  cases rest with
  | nil =>
    show (if part.mayEnd then finishPlain (deliver (.number n) stack) else finishPlain _) =
      finish (deliver (.number n) stack)
    rw [finish_deliver]
    rcases hp with rfl | rfl <;> rfl
  | cons c rest =>
    have hc := h c rfl
    simp only [Delimits, Bool.not_eq_true', Bool.or_eq_false_iff, decide_eq_false_iff_not] at hc
    obtain ⟨⟨⟨digit, point⟩, small⟩, large⟩ := hc
    have complete : numeralStep n c part = .complete := by
      rcases hp with rfl | rfl
      all_goals
        show (if isDigit c then _ else if c = '.' && true then _ else if c = 'e' || c = 'E' then _ else _ :
          Scan.Progress) = _
        simp [digit, point, small, large]
    rw [document_cons, document_cons, step_deliver]
    simp only [step, complete]

private theorem isDigit_of_ascii {c : Char} (h : c.isDigit = true) : isDigit c = true := by
  simpa [Char.isDigit, isDigit, Char.le_def] using h

private theorem digits_head {n : Nat} (hn : n ≠ 0) : ∃ c cs, Nat.toDigits 10 n = c :: cs ∧ c ≠ '0' := by
  induction n using Nat.strong_induction_on with
  | _ n ih =>
    rw [Nat.toDigits_eq_if (by decide)]
    split
    · exact ⟨_, [], rfl, fun h => hn (Nat.digitChar_eq_zero.mp h)⟩
    · obtain ⟨c, cs, h, hc⟩ := ih (n / 10) (by omega) (by omega)
      exact ⟨c, cs ++ [(n % 10).digitChar], by rw [h]; rfl, hc⟩

/-- Whether a value can begin in a mode. -/
def Awaits (m : Mode) : Prop := m = .due ∨ m = .opened

private theorem step_begin {m : Mode} (hm : Awaits m) (stack : List Frame) {c : Char} (blank : isBlank c = false)
    (list : c ≠ ']') (record : c ≠ '\x7d') : step ⟨m, stack⟩ c = begin c stack := by
  rcases hm with rfl | rfl
  · show (if isBlank c then _ else begin c stack) = _
    rw [blank]
    rfl
  · simp only [step, plainStep, blank]
    simp [list, record]

private theorem ne_of_isDigit {c x : Char} (hc : isDigit c = true) (hx : isDigit x = false) : c ≠ x := by
  rintro rfl
  rw [hx] at hc
  cases hc

private theorem begin_digit {c : Char} (hc : isDigit c = true) (h0 : c ≠ '0') (stack : List Frame) :
    begin c stack = ⟨.number .whole { whole := [c] }, stack⟩ := by
  have other : ∀ x, isDigit x = false → c ≠ x := fun _ => ne_of_isDigit hc
  simp only [begin, other '"' rfl, other '[' rfl, other '\x7b' rfl, other 'n' rfl, other 't' rfl, other 'f' rfl,
    other '-' rfl, h0, hc, if_false, if_true]

private theorem foldl_digits (ds : List Char) (hd : ∀ c ∈ ds, isDigit c = true) (n : Numeral) (stack : List Frame) :
    ds.foldl step ⟨.number .whole n, stack⟩ = ⟨.number .whole { n with whole := n.whole ++ ds }, stack⟩ := by
  induction ds generalizing n with
  | nil => simp
  | cons c cs ih =>
    have more : step ⟨.number .whole n, stack⟩ c = ⟨.number .whole { n with whole := n.whole ++ [c] }, stack⟩ := by
      simp only [step, numeralStep, hd c (by simp), if_true]
    rw [List.foldl_cons, more, ih fun x hx => hd x (by simp [hx])]
    simp

private theorem document_digits {m : Mode} (hm : Awaits m) (n : Nat) (stack : List Frame) {rest : List Char}
    (h : Delimited rest) : document ⟨m, stack⟩ (Nat.toDigits 10 n ++ rest) =
      document (deliver (.number { whole := Nat.toDigits 10 n }) stack) rest := by
  have digit : ∀ c ∈ Nat.toDigits 10 n, isDigit c = true := fun c hc =>
    isDigit_of_ascii (Nat.isDigit_of_mem_toDigits (by decide) (by decide) hc)
  have first : ∀ c, isDigit c = true → step ⟨m, stack⟩ c = begin c stack := by
    intro c hc
    have other : ∀ x, isDigit x = false → c ≠ x := fun _ => ne_of_isDigit hc
    refine step_begin hm stack ?_ (other _ rfl) (other _ rfl)
    simp [isBlank, other ' ' rfl, other '\n' rfl, other '\r' rfl, other '\t' rfl]
  by_cases hn : n = 0
  · subst hn
    show document (step _ '0') rest = _
    rw [first '0' rfl]
    exact document_number_ended (.inl rfl) _ stack h
  · obtain ⟨c, cs, hcs, hc⟩ := digits_head hn
    rw [hcs] at digit ⊢
    rw [List.cons_append, document_cons, first c (digit c (by simp)), begin_digit (digit c (by simp)) hc,
      document_append, foldl_digits cs fun x hx => digit x (by simp [hx])]
    exact document_number_ended (.inr rfl) _ stack h

end Scan

/-! ### Values -/

/-- In a layout only blanks are put between the parts of a value. -/
structure Layout.Spaced (l : Layout) : Prop where
  gap : ∀ n, ∀ c ∈ l.gap n, isBlank c = true
  colon : ∃ blanks, l.colon = ':' :: blanks ∧ ∀ c ∈ blanks, isBlank c = true

theorem Layout.indented_spaced : Layout.indented.Spaced where
  gap n c hc := by
    rcases List.mem_cons.mp hc with rfl | hc
    · rfl
    · rw [List.eq_of_mem_replicate hc]
      rfl
  colon := ⟨[' '], rfl, by simp [isBlank]⟩

namespace Scan

private theorem document_blanks {m : Mode} (hm : Awaits m ∨ m = .after) (stack : List Frame) {blanks : List Char}
    (hb : ∀ c ∈ blanks, isBlank c = true) (cs : List Char) :
    document ⟨m, stack⟩ (blanks ++ cs) = document ⟨m, stack⟩ cs := by
  induction blanks with
  | nil => rfl
  | cons c blanks ih =>
    have stays : step ⟨m, stack⟩ c = ⟨m, stack⟩ := by
      have blank : isBlank c = true := hb c (by simp)
      rcases hm with (rfl | rfl) | rfl
      all_goals
        show (if isBlank c then _ else _ : Scan) = _
        rw [if_pos blank]
    rw [List.cons_append, document_cons, stays]
    exact ih fun x hx => hb x (by simp [hx])

theorem Delimited.blanks {blanks cs : List Char} (hb : ∀ c ∈ blanks, isBlank c = true) (h : Delimited cs) :
    Delimited (blanks ++ cs) := by
  cases blanks with
  | nil => exact h
  | cons b blanks =>
    rintro c ⟨rfl⟩
    have := hb b (by simp)
    simp only [isBlank, Bool.or_eq_true, decide_eq_true_eq] at this
    rcases this with ((rfl | rfl) | rfl) | rfl <;> rfl

theorem Delimited.cons {c : Char} (h : Delimits c = true) (cs : List Char) : Delimited (c :: cs) := by
  rintro _ ⟨rfl⟩
  exact h

theorem Delimited.writeItems {rest : List Char} (h : Delimited rest) (l : Layout) (level : Nat) (js : List Json) :
    Delimited (writeItems l level js rest) := by
  cases js with
  | nil => exact h
  | cons j js => exact .cons rfl _

theorem Delimited.writeMembers {rest : List Char} (h : Delimited rest) (l : Layout) (level : Nat)
    (ms : List (String × Json)) : Delimited (writeMembers l level ms rest) := by
  cases ms with
  | nil => exact h
  | cons m ms => exact .cons rfl _

private theorem document_quote {m : Mode} (hm : Awaits m) (s : String) (stack : List Frame) (rest : List Char) :
    document ⟨m, stack⟩ (quote s rest) = document (deliver (.quoted (quotedOf s)) stack) rest := by
  rw [quote, document_cons, step_begin hm stack rfl (by decide) (by decide)]
  exact document_quoted s.toList [] stack rest

section Write

variable {l : Layout} (hl : l.Spaced)

include hl

mutual

/-- From where a value is due, its text leads to where its draft is delivered. -/
theorem document_write (j : Json) (level : Nat) {m : Mode} (hm : Awaits m) (stack : List Frame) {rest : List Char}
    (h : Delimited rest) : document ⟨m, stack⟩ (write l level j rest) = document (deliver (draft j) stack) rest := by
  cases j with
  | null =>
    rw [write, document_cons, step_begin hm stack rfl (by decide) (by decide)]
    rfl
  | number n =>
    rw [write, draft]
    exact document_digits hm n stack h
  | text s =>
    rw [write, draft]
    exact document_quote hm s stack rest
  | list js =>
    cases js with
    | nil =>
      rw [write, document_cons, step_begin hm stack rfl (by decide) (by decide)]
      rfl
    | cons j js =>
      have closing : Delimited (l.gap level ++ ']' :: rest) := .blanks (hl.gap level) (.cons rfl _)
      rw [write, document_cons, step_begin hm stack rfl (by decide) (by decide)]
      have opened : begin '[' stack = ⟨.opened, .item [] :: stack⟩ := rfl
      rw [opened, document_blanks (.inl (.inr rfl)) _ (hl.gap (level + 1)),
        document_write j (level + 1) (.inr rfl) _ (closing.writeItems l (level + 1) js)]
      show document ⟨.after, .item [draft j] :: stack⟩ _ = _
      rw [document_writeItems js (level + 1) _ stack closing, document_blanks (.inr rfl) _ (hl.gap level)]
      show document (deliver (.list ((draftItems js).reverse ++ [draft j]).reverse none) stack) rest = _
      rw [List.reverse_append, List.reverse_reverse]
      rfl
  | record ms =>
    cases ms with
    | nil =>
      rw [write, document_cons, step_begin hm stack rfl (by decide) (by decide)]
      rfl
    | cons m ms =>
      have closing : Delimited (l.gap level ++ '\x7d' :: rest) := .blanks (hl.gap level) (.cons rfl _)
      rw [write, document_cons, step_begin hm stack rfl (by decide) (by decide)]
      have opened : begin '\x7b' stack = ⟨.opened, .key [] :: stack⟩ := rfl
      rw [opened, document_blanks (.inl (.inr rfl)) _ (hl.gap (level + 1)),
        document_writeMember m (level + 1) (.inr rfl) _ _ (closing.writeMembers l (level + 1) ms),
        document_writeMembers ms (level + 1) _ stack closing, document_blanks (.inr rfl) _ (hl.gap level)]
      show document (deliver (.record ((draftMembers ms).reverse ++ draftMember m :: []).reverse none) stack) rest = _
      rw [List.reverse_append, List.reverse_reverse]
      rfl

private theorem document_writeItems (js : List Json) (level : Nat) (before : List Draft) (stack : List Frame)
    {rest : List Char} (h : Delimited rest) :
    document ⟨.after, .item before :: stack⟩ (writeItems l level js rest) =
      document ⟨.after, .item ((draftItems js).reverse ++ before) :: stack⟩ rest := by
  cases js with
  | nil => rfl
  | cons j js =>
    rw [writeItems, document_cons]
    show document ⟨.due, .item before :: stack⟩ _ = _
    rw [document_blanks (.inl (.inl rfl)) _ (hl.gap level),
      document_write j level (.inl rfl) _ (h.writeItems l level js)]
    show document ⟨.after, .item (draft j :: before) :: stack⟩ _ = _
    rw [document_writeItems js level _ stack h, draftItems, List.reverse_cons, List.append_assoc]
    rfl

private theorem document_writeMember (member : String × Json) (level : Nat) {m : Mode} (hm : Awaits m)
    (before : List (Draft × Draft)) (stack : List Frame) {rest : List Char} (h : Delimited rest) :
    document ⟨m, .key before :: stack⟩ (writeMember l level member rest) =
      document ⟨.after, .key (draftMember member :: before) :: stack⟩ rest := by
  obtain ⟨key, j⟩ := member
  obtain ⟨blanks, colon, hb⟩ := hl.colon
  rw [writeMember, document_quote hm, colon, List.cons_append, document_cons]
  show document ⟨.due, .value before (.quoted (quotedOf key)) :: stack⟩ _ = _
  rw [document_blanks (.inl (.inl rfl)) _ hb, document_write j level (.inl rfl) _ h]
  rfl

private theorem document_writeMembers (ms : List (String × Json)) (level : Nat) (before : List (Draft × Draft))
    (stack : List Frame) {rest : List Char} (h : Delimited rest) :
    document ⟨.after, .key before :: stack⟩ (writeMembers l level ms rest) =
      document ⟨.after, .key ((draftMembers ms).reverse ++ before) :: stack⟩ rest := by
  cases ms with
  | nil => rfl
  | cons m ms =>
    rw [writeMembers, document_cons]
    show document ⟨.due, .key before :: stack⟩ _ = _
    rw [document_blanks (.inl (.inl rfl)) _ (hl.gap level),
      document_writeMember m level (.inl rfl) _ _ (h.writeMembers l level ms),
      document_writeMembers ms level _ stack h, draftMembers, List.reverse_cons, List.append_assoc]
    rfl

end

end Write

end Scan

/-- The scanner finds in the text of a value the draft of that value. -/
theorem Document.ofChars_toText {l : Layout} (hl : l.Spaced) (j : Json) :
    Document.ofChars (j.toText l).toList = ⟨draft j, false⟩ := by
  rw [toText, String.toList_ofList]
  exact Scan.document_write hl j 0 (.inl rfl) [] nofun

private theorem readPieces_pieceOf (cs : List Char) : readPieces none (cs.map pieceOf) = .ok cs := by
  induction cs with
  | nil => rfl
  | cons c cs ih =>
    have read : readPieces none (pieceOf c :: cs.map pieceOf) =
        (readPieces none (cs.map pieceOf)).map (c :: ·) := by
      unfold pieceOf
      split_ifs with unit
      · have low : (c.toNat < 0xD800 || 0xE000 ≤ c.toNat) = true := by
          have := unit.1
          simp only [Bool.or_eq_true, decide_eq_true_eq]
          omega
        rw [readPieces.eq_def]
        simp only [low, if_true, Char.ofNat_toNat]
      · rfl
    rw [List.map_cons, read, ih]
    rfl

/-- A text is read back from its quotes. -/
theorem quotedOf_read (s : String) : (quotedOf s).read = .ok s := by
  rw [Quoted.read, quotedOf, readPieces_pieceOf]
  exact congrArg Except.ok String.ofList_toList

end SharedTree.Json
