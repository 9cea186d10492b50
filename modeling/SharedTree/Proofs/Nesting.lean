import SharedTree.Proofs.Scanning

/-!
# Nesting of brackets

How deep brackets are nested in a text can be told from the text alone: every bracket counts that does not stand in
quotes. `Json.nesting` counts them, with no regard to what the text stands for, and `Json.nesting_toText` says that in
the text of a value they are as deep as the value.
-/

namespace SharedTree.Json

/-- What the characters of a text have come to: how many brackets are open, how many were open at most, and whether the
next character stands in quotes and, if so, behind a backslash. -/
structure Nesting where
  now : Nat := 0
  most : Nat := 0
  quoted : Bool := false
  escaped : Bool := false

namespace Nesting

def step (s : Nesting) (c : Char) : Nesting :=
  if s.escaped then { s with escaped := false }
  else if s.quoted then
    if c = '"' then { s with quoted := false }
    else if c = '\\' then { s with escaped := true }
    else s
  else if c = '"' then { s with quoted := true }
  else if c = '[' || c = '\x7b' then { s with now := s.now + 1, most := max s.most (s.now + 1) }
  else if c = ']' || c = '\x7d' then { s with now := s.now - 1 }
  else s

end Nesting

/-- The greatest number of brackets and braces outside quotes that are open at once in a text. -/
def nesting (cs : List Char) : Nat := (cs.foldl Nesting.step {}).most

namespace Nesting

/-- A character that neither is a bracket nor opens quotes. -/
def Plain (c : Char) : Prop := c ≠ '"' ∧ c ≠ '[' ∧ c ≠ '\x7b' ∧ c ≠ ']' ∧ c ≠ '\x7d'

theorem step_plain {c : Char} (h : Plain c) (now most : Nat) :
    step ⟨now, most, false, false⟩ c = ⟨now, most, false, false⟩ := by
  obtain ⟨quote, list, record, list', record'⟩ := h
  simp [step, quote, list, record, list', record']

private theorem foldl_plain {cs : List Char} (h : ∀ c ∈ cs, Plain c) (now most : Nat) (rest : List Char) :
    (cs ++ rest).foldl step ⟨now, most, false, false⟩ = rest.foldl step ⟨now, most, false, false⟩ := by
  induction cs with
  | nil => rfl
  | cons c cs ih =>
    rw [List.cons_append, List.foldl_cons, step_plain (h c (by simp))]
    exact ih fun x hx => h x (by simp [hx])

theorem plain_of_blank {c : Char} (h : Scan.isBlank c = true) : Plain c := by
  simp only [Scan.isBlank, Bool.or_eq_true, decide_eq_true_eq] at h
  rcases h with ((rfl | rfl) | rfl) | rfl <;> simp [Plain]

private theorem plain_of_digit {c : Char} (h : c.isDigit = true) : Plain c := by
  have other : ∀ x : Char, x.isDigit = false → c ≠ x := fun x hx e => by rw [e, hx] at h; cases h
  exact ⟨other _ rfl, other _ rfl, other _ rfl, other _ rfl, other _ rfl⟩

/-- Inside quotes nothing is counted, and what is written for a character does not end the quotes. -/
private theorem foldl_escape (c : Char) (now most : Nat) :
    (escape c).foldl step ⟨now, most, true, false⟩ = ⟨now, most, true, false⟩ := by
  unfold escape
  split_ifs with h₁ h₂ h₃ h₄ h₅ h₆ h₇ h₈
  iterate 7 rfl
  · generalize c.toNat = n at h₈
    interval_cases n <;> rfl
  · simp [step, h₁, h₂]

private theorem foldl_quote (s : String) (now most : Nat) (rest : List Char) :
    (quote s rest).foldl step ⟨now, most, false, false⟩ = rest.foldl step ⟨now, most, false, false⟩ := by
  have inside : ∀ cs : List Char,
      (cs.flatMap escape).foldl step ⟨now, most, true, false⟩ = ⟨now, most, true, false⟩ := by
    intro cs
    induction cs with
    | nil => rfl
    | cons c cs ih => rw [List.flatMap_cons, List.foldl_append, foldl_escape, ih]
  rw [quote, List.foldl_cons, List.foldl_append]
  show (_ :: rest).foldl step ((s.toList.flatMap escape).foldl step ⟨now, most, true, false⟩) = _
  rw [inside]
  rfl

/-! ### Written values -/

section Write

variable {l : Layout} (hl : l.Spaced)

include hl

private theorem foldl_gap (level now most : Nat) (rest : List Char) :
    (l.gap level ++ rest).foldl step ⟨now, most, false, false⟩ = rest.foldl step ⟨now, most, false, false⟩ :=
  foldl_plain (fun c hc => plain_of_blank (hl.gap level c hc)) now most rest

-- All brackets that a value opens it closes again. Where it is written, no more are open than were open at most.
mutual

private theorem foldl_write (j : Json) (level : Nat) {now most : Nat} (h : now ≤ most) (rest : List Char) :
    (write l level j rest).foldl step ⟨now, most, false, false⟩ =
      rest.foldl step ⟨now, max most (now + j.depth), false, false⟩ := by
  cases j with
  | null =>
    rw [write, depth, Nat.add_zero, Nat.max_eq_left h]
    rfl
  | number n =>
    rw [write, depth, Nat.add_zero, Nat.max_eq_left h]
    exact foldl_plain (fun c hc => plain_of_digit (Nat.isDigit_of_mem_toDigits (by decide) (by decide) hc)) _ _ _
  | text s => rw [write, depth, Nat.add_zero, Nat.max_eq_left h, foldl_quote]
  | list js =>
    cases js with
    | nil =>
      rw [write]
      rfl
    | cons j js =>
      rw [write, List.foldl_cons]
      show (l.gap (level + 1) ++ _).foldl step ⟨now + 1, max most (now + 1), false, false⟩ = _
      rw [foldl_gap hl, foldl_write j (level + 1) (Nat.le_max_right ..),
        foldl_writeItems js (level + 1) (by omega), foldl_gap hl, List.foldl_cons]
      show rest.foldl step ⟨now, _, false, false⟩ = _
      congr 2
      simp only [depth, depthItems]
      omega
  | record ms =>
    cases ms with
    | nil =>
      rw [write]
      rfl
    | cons m ms =>
      rw [write, List.foldl_cons]
      show (l.gap (level + 1) ++ _).foldl step ⟨now + 1, max most (now + 1), false, false⟩ = _
      rw [foldl_gap hl, foldl_writeMember m (level + 1) (Nat.le_max_right ..),
        foldl_writeMembers ms (level + 1) (by omega), foldl_gap hl, List.foldl_cons]
      show rest.foldl step ⟨now, _, false, false⟩ = _
      congr 2
      simp only [depth, depthMembers]
      omega

private theorem foldl_writeItems (js : List Json) (level : Nat) {now most : Nat} (h : now ≤ most) (rest : List Char) :
    (writeItems l level js rest).foldl step ⟨now, most, false, false⟩ =
      rest.foldl step ⟨now, max most (now + depthItems js), false, false⟩ := by
  cases js with
  | nil => rw [writeItems, depthItems, Nat.add_zero, Nat.max_eq_left h]
  | cons j js =>
    rw [writeItems, List.foldl_cons]
    show (l.gap level ++ _).foldl step ⟨now, most, false, false⟩ = _
    rw [foldl_gap hl, foldl_write j level h, foldl_writeItems js level (by omega), depthItems]
    congr 2
    omega

private theorem foldl_writeMember (m : String × Json) (level : Nat) {now most : Nat} (h : now ≤ most)
    (rest : List Char) : (writeMember l level m rest).foldl step ⟨now, most, false, false⟩ =
      rest.foldl step ⟨now, max most (now + m.2.depth), false, false⟩ := by
  obtain ⟨key, j⟩ := m
  obtain ⟨blanks, colon, hb⟩ := hl.colon
  have plain : ∀ c ∈ l.colon, Plain c := by
    intro c hc
    rw [colon] at hc
    rcases List.mem_cons.mp hc with rfl | hc
    · simp [Plain]
    · exact plain_of_blank (hb c hc)
  rw [writeMember, foldl_quote, foldl_plain plain, foldl_write j level h]

private theorem foldl_writeMembers (ms : List (String × Json)) (level : Nat) {now most : Nat} (h : now ≤ most)
    (rest : List Char) : (writeMembers l level ms rest).foldl step ⟨now, most, false, false⟩ =
      rest.foldl step ⟨now, max most (now + depthMembers ms), false, false⟩ := by
  cases ms with
  | nil => rw [writeMembers, depthMembers, Nat.add_zero, Nat.max_eq_left h]
  | cons m ms =>
    obtain ⟨key, j⟩ := m
    rw [writeMembers, List.foldl_cons]
    show (l.gap level ++ _).foldl step ⟨now, most, false, false⟩ = _
    rw [foldl_gap hl, foldl_writeMember (key, j) level h, foldl_writeMembers ms level (by omega), depthMembers]
    congr 2
    dsimp only
    omega

end

end Write

end Nesting

/-- The brackets in the text of a value are nested as deep as the value. -/
theorem nesting_toText {l : Layout} (hl : l.Spaced) (j : Json) : nesting (j.toText l).toList = j.depth := by
  rw [toText, String.toList_ofList, nesting]
  show ((j.write l 0 []).foldl Nesting.step ⟨0, 0, false, false⟩).most = _
  rw [Nesting.foldl_write hl j 0 (Nat.le_refl 0), List.foldl_nil]
  simp

end SharedTree.Json
