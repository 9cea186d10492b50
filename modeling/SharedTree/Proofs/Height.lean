import SharedTree.Proofs.Nesting

/-!
# Texts are nested as deep as their drafts

The draft of a text is nested no deeper than the brackets in the text, be the text JSON or not. What was written without
need, such as members that are skipped, can only make the text deeper.

* `Scan.Fits` bounds the open lists and records by the number of brackets that were open at most.
* `Scan.Tracks` relates a state of the scanner to the count of brackets. The scanner is in quotes when the count is,
  with one exception: where digits of a unit are due, it passes over whatever there is, quotes included, until it has
  seen enough of it to stop.
* `Scan.Tracks.step` is one character, and `Document.height_le_nesting` a whole text.
-/

namespace SharedTree.Json

/-! ### The height of a draft -/

namespace Draft

mutual

/-- The number of lists and records that are open at the innermost point of a draft. Keys do not count. -/
def height : Draft → Nat
  | .list items _ => 1 + heightItems items
  | .record members _ => 1 + heightMembers members
  | .missing _ | .word _ | .brokenWord _ | .number _ | .brokenNumber _ | .quoted _ => 0

def heightItems : List Draft → Nat
  | [] => 0
  | d :: ds => max (height d) (heightItems ds)

def heightMembers : List (Draft × Draft) → Nat
  | [] => 0
  | (_, d) :: ms => max (height d) (heightMembers ms)

end

theorem heightItems_le {ds : List Draft} {k : Nat} : heightItems ds ≤ k ↔ ∀ d ∈ ds, d.height ≤ k := by
  induction ds with
  | nil => simp [heightItems]
  | cons d ds ih => simp [heightItems, ih]

theorem heightMembers_le {ms : List (Draft × Draft)} {k : Nat} : heightMembers ms ≤ k ↔ ∀ m ∈ ms, m.2.height ≤ k := by
  induction ms with
  | nil => simp [heightMembers]
  | cons m ms ih =>
    obtain ⟨key, d⟩ := m
    simp [heightMembers, ih]

/-- A list stands `k` levels deep. -/
theorem list_height_le {items : List Draft} {broken : Option Fault} {k most : Nat} (room : k + 1 ≤ most)
    (h : ∀ d ∈ items, k + 1 + d.height ≤ most) : k + (list items broken).height ≤ most := by
  have inside : heightItems items ≤ most - (k + 1) := heightItems_le.mpr fun d hd => by
    have := h d hd
    omega
  rw [height]
  omega

private theorem record_height_le {members : List (Draft × Draft)} {broken : Option Fault} {k most : Nat}
    (room : k + 1 ≤ most)
    (h : ∀ m ∈ members, k + 1 + m.2.height ≤ most) : k + (record members broken).height ≤ most := by
  have inside : heightMembers members ≤ most - (k + 1) := heightMembers_le.mpr fun m hm => by
    have := h m hm
    omega
  rw [height]
  omega

end Draft

namespace Nesting

private theorem most_le_step (s : Nesting) (c : Char) : s.most ≤ (s.step c).most := by
  unfold step
  split_ifs <;> simp only [Nat.le_refl, Nat.le_max_left]

end Nesting

namespace Scan

open Nesting (Plain step_plain plain_of_blank most_le_step)

/-! ### Open lists and records -/

/-- The values that an open list or record holds so far. -/
def held : Frame → List Draft
  | .item before => before
  | .key before | .value before _ => before.map Prod.snd

/-- No more than `most` lists and records are open, and no value in them is nested deeper than that. -/
def Fits (most : Nat) : List Frame → Prop
  | [] => True
  | f :: fs => fs.length + 1 ≤ most ∧ (∀ d ∈ held f, fs.length + 1 + d.height ≤ most) ∧ Fits most fs

section Fits

variable {most : Nat} {stack fs : List Frame}

theorem Fits.length_le (h : Fits most stack) : stack.length ≤ most := by
  cases stack with
  | nil => exact Nat.zero_le _
  | cons f fs => exact h.1

theorem Fits.mono {more : Nat} (h : Fits most stack) (le : most ≤ more) : Fits more stack := by
  induction stack with
  | nil => trivial
  | cons f fs ih =>
    obtain ⟨room, values, below⟩ := h
    exact ⟨Nat.le_trans room le, fun d hd => Nat.le_trans (values d hd) le, ih below⟩

theorem Fits.list {before : List Draft} (h : Fits most (.item before :: fs)) (broken : Option Fault) :
    fs.length + (Draft.list before.reverse broken).height ≤ most :=
  Draft.list_height_le h.1 fun d hd => h.2.1 d (List.mem_reverse.mp hd)

theorem Fits.record {before : List (Draft × Draft)} (h : Fits most (.key before :: fs)) (broken : Option Fault) :
    fs.length + (Draft.record before.reverse broken).height ≤ most :=
  Draft.record_height_le h.1 fun m hm => h.2.1 m.2 (List.mem_map_of_mem (List.mem_reverse.mp hm))

/-- A value goes into the list or record in which it stands. -/
theorem Fits.item {before : List Draft} (h : Fits most (.item before :: fs)) {d : Draft}
    (hd : fs.length + 1 + d.height ≤ most) : Fits most (.item (d :: before) :: fs) :=
  ⟨h.1, List.forall_mem_cons.mpr ⟨hd, h.2.1⟩, h.2.2⟩

theorem Fits.member {before : List (Draft × Draft)} {key : Draft} (h : Fits most (.value before key :: fs)) {d : Draft}
    (hd : fs.length + 1 + d.height ≤ most) : Fits most (.key ((key, d) :: before) :: fs) :=
  ⟨h.1, List.forall_mem_cons.mpr ⟨hd, h.2.1⟩, h.2.2⟩

/-- A text that ends inside open lists and records is as deep as these allow. -/
theorem enclose_height_le {d : Draft} (h : Fits most stack) (hd : stack.length + d.height ≤ most) :
    (enclose d stack).height ≤ most := by
  induction stack generalizing d with
  | nil => simpa [enclose] using hd
  | cons f fs ih =>
    cases f with
    | item before => exact ih h.2.2 ((h.item hd).list _)
    | key before =>
      -- a value in the place of a key is closed as one, and keys do not count
      have whole : Fits most (.key ((d, .missing .malformed) :: before) :: fs) :=
        ⟨h.1, List.forall_mem_cons.mpr ⟨h.1, h.2.1⟩, h.2.2⟩
      exact ih h.2.2 (whole.record _)
    | value before key => exact ih h.2.2 ((h.member hd).record _)

private theorem encloseBroken_height_le (h : Fits most stack) (f : Fault) : (encloseBroken f stack).height ≤ most := by
  cases stack with
  | nil => exact Nat.zero_le _
  | cons frame fs =>
    cases frame with
    | item before => exact enclose_height_le h.2.2 (h.list _)
    | key before => exact enclose_height_le h.2.2 (h.record _)
    | value before key => exact enclose_height_le (d := .missing f) h h.1

end Fits

/-! ### The scanner and the count -/

/-- The modes outside quotes in which the value is not complete yet. The letters of a word are no brackets. -/
def Outside : Mode → Prop
  | .due | .opened | .after | .colon | .number _ _ => True
  | .word rest _ => rest ≠ [] ∧ ∀ c ∈ rest, Plain c
  | _ => False

/-- What a state of the scanner has to do with the count of brackets. -/
inductive Tracks : Scan → Nesting → Prop
  | outside {m : Mode} {stack : List Frame} {most : Nat} (hm : Outside m) (fits : Fits most stack) :
      Tracks ⟨m, stack⟩ ⟨stack.length, most, false, false⟩
  | quoted {pieces : List Piece} {stack : List Frame} {most : Nat} (fits : Fits most stack) :
      Tracks ⟨.quoted pieces, stack⟩ ⟨stack.length, most, true, false⟩
  | escape {pieces : List Piece} {stack : List Frame} {most : Nat} (fits : Fits most stack) :
      Tracks ⟨.escape pieces, stack⟩ ⟨stack.length, most, true, true⟩
  | unit {pieces : List Piece} {seen : List Char} {stack : List Frame} {most : Nat}
      (digits : ∀ c ∈ seen, Text.hexValue? c ≠ none) (fits : Fits most stack) :
      Tracks ⟨.unit pieces seen, stack⟩ ⟨stack.length, most, true, false⟩
  /-- A character that is no digit has been seen where digits are due. -/
  | lost {pieces : List Piece} {seen : List Char} {stack : List Frame} {n : Nesting} {c : Char} (mem : c ∈ seen)
      (stray : Text.hexValue? c = none) (fits : Fits n.most stack) : Tracks ⟨.unit pieces seen, stack⟩ n
  | ended {d : Draft} {most : Nat} (h : d.height ≤ most) : Tracks ⟨.ended d, []⟩ ⟨0, most, false, false⟩
  | done {document : Document} {stack : List Frame} {n : Nesting} (h : document.value.height ≤ n.most) :
      Tracks ⟨.over document, stack⟩ n

section Tracks

variable {most : Nat} {stack fs : List Frame} {n : Nesting}

theorem Tracks.stop {d : Draft} (h : Fits n.most stack) (hd : stack.length + d.height ≤ n.most) :
    Tracks (stop d stack) n := .done (enclose_height_le h hd)

theorem Tracks.stopInside (h : Fits n.most stack) : Tracks (stopInside stack) n :=
  .done (encloseBroken_height_le h _)

/-- A complete value goes to where it is due, and outside quotes nothing else changes. -/
theorem Tracks.deliver {d : Draft} (h : Fits most stack) (hd : stack.length + d.height ≤ most) :
    Tracks (deliver d stack) ⟨stack.length, most, false, false⟩ := by
  cases stack with
  | nil => exact .ended (by simpa using hd)
  | cons f fs =>
    cases f with
    | item before => exact .outside (m := .after) trivial (h.item hd)
    | value before key =>
      exact .outside (m := .after) trivial (h.member hd)
    | key before =>
      cases d with
      | quoted q => exact .outside (m := .colon) trivial h
      | missing f => exact Tracks.stop h hd
      | word w => exact Tracks.stop h hd
      | brokenWord f => exact Tracks.stop h hd
      | number x => exact Tracks.stop h hd
      | brokenNumber f => exact Tracks.stop h hd
      | list items broken => exact Tracks.stop h hd
      | record members broken => exact Tracks.stop h hd

end Tracks

/-! ### One character -/

section Step

variable {most : Nat} {stack fs : List Frame} {n : Nesting} {s : Scan}

private theorem plain_of_digit {c : Char} (h : isDigit c = true) : Plain c := by
  refine ⟨?_, ?_, ?_, ?_, ?_⟩ <;> rintro rfl <;> cases h

private theorem plain_of_more {x y : Numeral} {c : Char} {part part' : Part}
    (h : numeralStep x c part = .more part' y) : Plain c := by
  refine ⟨?_, ?_, ?_, ?_, ?_⟩ <;> rintro rfl <;> cases part <;> cases h

/-- Where a value begins, a bracket is opened, or quotes, or neither. -/
theorem Tracks.begin (h : Fits most stack) (c : Char) :
    Tracks (begin c stack) (Nesting.step ⟨stack.length, most, false, false⟩ c) := by
  have opens (f : Frame) (empty : held f = []) :
      Tracks ⟨.opened, f :: stack⟩ ⟨stack.length + 1, max most (stack.length + 1), false, false⟩ :=
    .outside trivial
      ⟨Nat.le_max_right _ _, by simp [empty], h.mono (Nat.le_max_left _ _)⟩
  have goes_on {m : Mode} (hm : Outside m) (hc : Plain c) :
      Tracks ⟨m, stack⟩ (Nesting.step ⟨stack.length, most, false, false⟩ c) := by
    rw [step_plain hc]
    exact .outside hm h
  unfold Scan.begin
  split_ifs with quote list record null yes no minus zero digit
  · subst quote
    exact .quoted h
  · subst list
    exact opens (.item []) rfl
  · subst record
    exact opens (.key []) rfl
  · subst null
    exact goes_on ⟨nofun, by simp [Plain]⟩ (by simp [Plain])
  · subst yes
    exact goes_on ⟨nofun, by simp [Plain]⟩ (by simp [Plain])
  · subst no
    exact goes_on ⟨nofun, by simp [Plain]⟩ (by simp [Plain])
  · subst minus
    exact goes_on trivial (by simp [Plain])
  · subst zero
    exact goes_on trivial (by simp [Plain])
  · exact goes_on trivial (plain_of_digit digit)
  · have fits := h.mono (most_le_step ⟨stack.length, most, false, false⟩ c)
    exact .stop fits fits.length_le

private theorem Tracks.outsideStep {m : Mode} (hm : Outside m) (h : Fits most stack)
    (plain : ∀ part x, m ≠ .number part x)
    (c : Char) : Tracks (plainStep ⟨m, stack⟩ c) (Nesting.step ⟨stack.length, most, false, false⟩ c) := by
  have fits := h.mono (most_le_step ⟨stack.length, most, false, false⟩ c)
  have blank (blank : isBlank c = true) : Tracks ⟨m, stack⟩ (Nesting.step ⟨stack.length, most, false, false⟩ c) := by
    rw [step_plain (plain_of_blank blank)]
    exact .outside hm h
  cases m with
  | due =>
    simp only [Scan.plainStep]
    split
    · exact blank ‹_›
    · exact .begin h c
  | opened =>
    simp only [Scan.plainStep]
    split
    · exact blank ‹_›
    · split
      · exact .deliver h.2.2 (h.list none)
      · exact .deliver h.2.2 (h.record none)
      · exact .begin h c
  | after =>
    simp only [Scan.plainStep]
    split
    · exact blank ‹_›
    · split
      · exact .outside trivial h
      · exact .deliver h.2.2 (h.list none)
      · exact .deliver h.2.2 (h.record none)
      · exact .stopInside fits
  | colon =>
    simp only [Scan.plainStep]
    split_ifs with hb hc
    · exact blank hb
    · subst hc
      exact .outside trivial h
    · exact .stopInside fits
  | word rest w =>
    obtain ⟨some_left, letters⟩ := hm
    cases rest with
    | nil => exact absurd rfl some_left
    | cons r rest =>
      simp only [Scan.plainStep]
      split_ifs with hr last
      · subst hr
        rw [step_plain (letters c List.mem_cons_self)]
        exact .deliver h h.length_le
      · subst hr
        rw [step_plain (letters c List.mem_cons_self)]
        refine .outside ⟨?_, fun x hx => letters x (List.mem_cons_of_mem _ hx)⟩ h
        rintro rfl
        exact last rfl
      · exact .stop fits fits.length_le
  | number part x => exact absurd rfl (plain part x)
  | _ => exact hm.elim

private theorem hexFold_stray {cs : List Char} {c : Char} (mem : c ∈ cs) (stray : Text.hexValue? c = none)
    (start : Nat) : Text.hexFold start cs = none := by
  induction cs generalizing start with
  | nil => cases mem
  | cons x cs ih =>
    rw [Text.hexFold]
    rcases List.mem_cons.mp mem with rfl | mem
    · rw [stray]
    · cases Text.hexValue? x with
      | none => rfl
      | some d => exact ih mem _

private theorem ofHex?_stray {cs : List Char} {c : Char} (mem : c ∈ cs) (stray : Text.hexValue? c = none) :
    Text.ofHex? cs = none := by
  rw [Text.ofHex?, hexFold_stray mem stray, ite_self]

private theorem plainStep_unit (pieces : List Piece) (seen : List Char) (stack : List Frame) (c : Char) :
    plainStep ⟨.unit pieces seen, stack⟩ c =
      if (String.ofList (c :: seen)).utf8ByteSize < 4 then ⟨.unit pieces (c :: seen), stack⟩
      else match (c :: seen).length, Text.ofHex? (c :: seen).reverse with
        | 4, some code => ⟨.quoted (.unit code :: pieces), stack⟩
        | _, _ => Scan.stop (.quoted ⟨pieces.reverse, some .malformed⟩) stack := rfl

/-- After a stray character the scanner can only stop, at the latest when it looks at what it has seen. -/
theorem Tracks.lostStep {pieces : List Piece} {seen : List Char} {c x : Char} (mem : x ∈ c :: seen)
    (stray : Text.hexValue? x = none) (fits : Fits n.most stack) :
    Tracks (plainStep ⟨.unit pieces seen, stack⟩ c) n := by
  rw [plainStep_unit, ofHex?_stray (List.mem_reverse.mpr mem) stray]
  split_ifs with short
  · exact .lost mem stray fits
  · split
    · contradiction
    · exact .stop fits fits.length_le

theorem Tracks.unitStep {pieces : List Piece} {seen : List Char} (digits : ∀ c ∈ seen, Text.hexValue? c ≠ none)
    (h : Fits most stack) (c : Char) :
    Tracks (plainStep ⟨.unit pieces seen, stack⟩ c) (Nesting.step ⟨stack.length, most, true, false⟩ c) := by
  have fits := h.mono (most_le_step ⟨stack.length, most, true, false⟩ c)
  cases digit : Text.hexValue? c with
  | none => exact .lostStep List.mem_cons_self digit fits
  | some d =>
    have inside : Nesting.step ⟨stack.length, most, true, false⟩ c = ⟨stack.length, most, true, false⟩ := by
      have quote : c ≠ '"' := by
        rintro rfl
        cases digit
      have backslash : c ≠ '\\' := by
        rintro rfl
        cases digit
      simp [Nesting.step, quote, backslash]
    rw [inside, plainStep_unit]
    split_ifs with short
    · refine .unit (List.forall_mem_cons.mpr ⟨?_, digits⟩) h
      rw [digit]
      exact Option.some_ne_none d
    · split
      · exact .quoted h
      · exact .stop h h.length_le

/-- A character that is not part of a numeral. -/
theorem Tracks.plainStep (h : Tracks s n) (plain : ∀ part x, s.mode ≠ .number part x) (c : Char) :
    Tracks (plainStep s c) (n.step c) := by
  cases h with
  | outside hm fits => exact .outsideStep hm fits plain c
  | @quoted pieces stack most h =>
    have fits := h.mono (most_le_step ⟨stack.length, most, true, false⟩ c)
    simp only [Scan.plainStep]
    split_ifs with quote backslash control
    · subst quote
      exact .deliver h h.length_le
    · subst backslash
      exact .escape h
    · exact .stop fits fits.length_le
    · have inside : Nesting.step ⟨stack.length, most, true, false⟩ c = ⟨stack.length, most, true, false⟩ := by
        simp [Nesting.step, quote, backslash]
      rw [inside]
      exact .quoted h
  | @escape pieces stack most h =>
    show Tracks _ ⟨stack.length, most, true, false⟩
    simp only [Scan.plainStep]
    split_ifs with unit
    · exact .unit (by simp) h
    · split
      · exact .quoted h
      · exact .stop h h.length_le
  | unit digits h => exact .unitStep digits h c
  | lost mem stray h => exact .lostStep (List.mem_cons_of_mem _ mem) stray (h.mono (most_le_step n c))
  | @ended d most h =>
    simp only [Scan.plainStep]
    split_ifs with blank
    · rw [step_plain (plain_of_blank blank)]
      exact .ended h
    · exact .done (Nat.le_trans h (most_le_step ⟨0, most, false, false⟩ c))
  | done h => exact .done (Nat.le_trans h (most_le_step n c))

theorem Tracks.step (h : Tracks s n) (c : Char) : Tracks (step s c) (n.step c) := by
  obtain ⟨m, stack⟩ := s
  cases m with
  | number part x =>
    cases h with
    | @outside _ _ most _ h =>
      have fits := h.mono (most_le_step ⟨stack.length, most, false, false⟩ c)
      simp only [Scan.step]
      split
      · -- the numeral goes on
        have more : numeralStep x c part = _ := ‹_›
        rw [step_plain (plain_of_more more)]
        exact .outside trivial h
      · -- the numeral has ended before the character, which is still to be looked at
        have delivered : Tracks (Scan.deliver (.number x) stack) ⟨stack.length, most, false, false⟩ :=
          .deliver h h.length_le
        obtain ⟨m, fs, complete, plain⟩ := deliver_cases (.number x) stack
        rw [complete] at delivered ⊢
        exact delivered.plainStep plain c
      · exact .stop fits fits.length_le
  | _ => exact h.plainStep (by simp) c

end Step

/-! ### A whole text -/

theorem Tracks.finishPlain {s : Scan} {n : Nesting} (h : Tracks s n) : (finishPlain s).value.height ≤ n.most := by
  cases h with
  | @outside m _ _ hm h =>
    cases m with
    | due => exact enclose_height_le (d := .missing .cutShort) h h.length_le
    | opened => exact encloseBroken_height_le h _
    | after => exact encloseBroken_height_le h _
    | colon => exact encloseBroken_height_le h _
    | word rest w => exact enclose_height_le (d := .brokenWord .cutShort) h h.length_le
    | number part x => exact enclose_height_le (d := .brokenNumber .cutShort) h h.length_le
    | _ => exact hm.elim
  | @quoted pieces _ _ h => exact enclose_height_le (d := .quoted ⟨pieces.reverse, some .cutShort⟩) h h.length_le
  | @escape pieces _ _ h => exact enclose_height_le (d := .quoted ⟨pieces.reverse, some .cutShort⟩) h h.length_le
  | @unit pieces _ _ _ _ h => exact enclose_height_le (d := .quoted ⟨pieces.reverse, some .cutShort⟩) h h.length_le
  | @lost pieces _ _ _ _ _ _ h =>
    exact enclose_height_le (d := .quoted ⟨pieces.reverse, some .cutShort⟩) h h.length_le
  | ended h => exact h
  | done h => exact h

theorem Tracks.finish {s : Scan} {n : Nesting} (h : Tracks s n) : (finish s).value.height ≤ n.most := by
  obtain ⟨m, stack⟩ := s
  cases m with
  | number part x =>
    simp only [Scan.finish]
    split_ifs with complete
    · cases h with
      | outside _ h => exact Tracks.finishPlain (.deliver h h.length_le)
    · exact h.finishPlain
  | _ => exact h.finishPlain

private theorem tracks_foldl (cs : List Char) {s : Scan} {n : Nesting} (h : Tracks s n) :
    Tracks (cs.foldl step s) (cs.foldl Nesting.step n) := by
  induction cs generalizing s n with
  | nil => exact h
  | cons c cs ih => exact ih (h.step c)

end Scan

/-- The draft of a text is nested no deeper than the brackets in the text. -/
theorem Document.height_le_nesting (cs : List Char) : (Document.ofChars cs).value.height ≤ nesting cs := by
  have begins : Scan.Tracks ⟨.due, []⟩ {} := .outside trivial trivial
  exact (Scan.tracks_foldl cs begins).finish

end SharedTree.Json
