import SharedTree.Proofs.Scanning

/-!
# Reading what was scanned

Readers get back what was written from the draft of its value. Lists and records count against a budget of nesting, so
that a reading succeeds if and only if the value is nested no deeper than the budget allows: `within` is a reading of
this kind, and such readings can be put together.

* `Draft.readItems_draft` is on the elements of a list and `Draft.readStructure_draft` on the members of a record.
-/

namespace SharedTree.Json

variable {α β : Type}

/-! ### Readings with a budget -/

/-- A reading that yields a value if the value is nested no deeper than the budget allows. -/
def within (need budget : Nat) (a : α) : Reading α := if need ≤ budget then .ok a else .error .malformed

theorem ok_bind (a : α) (f : α → Reading β) : ((.ok a : Reading α) >>= f) = f a := rfl

theorem within_zero (budget : Nat) (a : α) : within 0 budget a = .ok a := if_pos (Nat.zero_le _)

theorem within_map (f : α → β) (need budget : Nat) (a : α) :
    (within need budget a).map f = within need budget (f a) := by
  unfold within
  split <;> rfl

theorem within_fmap (f : α → β) (need budget : Nat) (a : α) :
    f <$> within need budget a = within need budget (f a) := within_map f need budget a

private theorem within_bind {f : α → Reading β} {m k budget : Nat} {a : α} {b : β} (h : f a = within k budget b) :
    (within m budget a >>= f) = within (max m k) budget b := by
  unfold within at h ⊢
  by_cases hm : m ≤ budget
  · rw [if_pos hm]
    show f a = _
    rw [h]
    simp only [Nat.max_le, hm, true_and]
  · rw [if_neg hm, if_neg (by omega)]
    rfl

theorem within_succ (need budget : Nat) (a : α) : within (1 + need) (budget + 1) a = within need budget a := by
  unfold within
  simp only [Nat.add_comm 1, Nat.add_le_add_iff_right]

theorem within_full (need : Nat) (a : α) : within (1 + need) 0 a = .error .malformed := if_neg (by omega)

namespace Draft

/-! ### Plain values -/

theorem readText_draft (s : String) : (draft (.text s)).readText = .ok s := quotedOf_read s

theorem readNumber_draft (n : UInt32) : (draft (.number n.toNat)).readNumber = .ok n := by
  have natural : Numeral.natural? { whole := Nat.toDigits 10 n.toNat } = some n.toNat :=
    congrArg some Nat.ofDigitChars_ten_toDigits
  rw [draft, readNumber, natural]
  simp only [UInt32.toNat_lt_size, if_true, Nat.toUInt32_eq, UInt32.ofNat_toNat]

theorem readCase_draft {κ : Type} {lookup : String → Option κ} {name : String} {k : κ} (h : lookup name = some k) :
    readCase lookup (quotedOf name).read = .ok k := by
  rw [readCase, quotedOf_read, ok_bind, h]
  rfl

theorem readName_draft {κ : Type} {lookup : String → Option κ} {name : String} {k : κ} (h : lookup name = some k)
    (mayOpen : Bool) : (draft (.text name)).readName lookup mayOpen = .ok k := by
  rw [draft, readName, readVariant, readCase_draft h]
  rfl

theorem takeOnce_none (r : Reading α) : takeOnce none r = r.map some := rfl

theorem readItems_draft {read : Draft → Reading α} {budget : Nat} {encode : α → Json} (as : List α)
    (h : ∀ a ∈ as, read (draft (encode a)) = within (encode a).depth budget a) :
    readItems read none (draftItems (as.map encode)) = within (depthItems (as.map encode)) budget as := by
  induction as with
  | nil => exact (within_zero ..).symm
  | cons a as ih =>
    rw [List.map_cons, draftItems, readItems, h a (by simp)]
    refine within_bind ?_
    rw [ih fun x hx => h x (by simp [hx])]
    exact within_map ..

/-! ### Structures -/

/-- The members of a record are taken one by one. `pending names` is what was taken of a structure before the members of
these names. -/
theorem takeMembers_draft {fields : List String} {take : String → Draft → α → Reading α} {budget : Nat}
    (pending : List String → α) (ms : List (String × Json)) (nodup : (ms.map Prod.fst).Nodup)
    (h : ∀ m ∈ ms, m.1 ∈ fields ∧ ∀ rest, m.1 ∉ rest →
      take m.1 (draft m.2) (pending (m.1 :: rest)) = within m.2.depth budget (pending rest)) :
    takeMembers fields take none (draftMembers ms) (pending (ms.map Prod.fst)) =
      within (depthMembers ms) budget (pending []) := by
  induction ms with
  | nil => exact (within_zero ..).symm
  | cons m ms ih =>
    obtain ⟨key, j⟩ := m
    obtain ⟨new, rest⟩ := List.nodup_cons.mp nodup
    obtain ⟨mem, taken⟩ := h (key, j) (by simp)
    have name : readKey (.quoted (quotedOf key)) = .ok key := quotedOf_read key
    have known : fields.contains key = true := List.contains_iff_mem.mpr mem
    rw [draftMembers, draftMember, takeMembers, name, ok_bind, if_pos known, List.map_cons, taken _ new]
    exact within_bind (ih rest fun x hx => h x (by simp [hx]))

/-- A structure is taken apart, and what was taken is put together. -/
theorem readStructure_draft {fields : List String} {short : Option Fault} {take : String → Draft → α → Reading α}
    {budget : Nat} (pending : List String → α) {ms : List (String × Json)} (nodup : (ms.map Prod.fst).Nodup)
    (h : ∀ m ∈ ms, m.1 ∈ fields ∧ ∀ rest, m.1 ∉ rest →
      take m.1 (draft m.2) (pending (m.1 :: rest)) = within m.2.depth budget (pending rest))
    {start : α} (hs : start = pending (ms.map Prod.fst)) {k : α → Reading β} {b : β} (hk : k (pending []) = .ok b) :
    (readStructure fields short take start (draft (.record ms)) >>= k) =
      within (1 + depthMembers ms) (budget + 1) b := by
  have members : readStructure fields short take start (draft (.record ms)) =
      within (depthMembers ms) budget (pending []) := by
    rw [hs, draft]
    exact takeMembers_draft pending ms nodup h
  rw [members, within_succ]
  unfold within
  split
  · exact hk
  · rfl

end Draft

end SharedTree.Json
