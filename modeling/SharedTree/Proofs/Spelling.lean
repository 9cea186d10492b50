import SharedTree.Flags
import Mathlib.Data.List.TakeWhile
import Mathlib.Tactic.IntervalCases

/-!
# Flags and their spelling

The text form of flags is read back as the same flags, whatever bits are set. The words of the text form are split and
trimmed apart again (`Flags.ofWords?_split`), each word stands for the flags that it was written for, and the union of
these is the whole (`Flags.ofWords?_words`).
-/

namespace SharedTree

namespace Text

/-! ### Words between bars -/

/-- A text without blanks and bars. -/
def IsWord (w : List Char) : Prop := w ≠ [] ∧ ∀ c ∈ w, isBlank c = false ∧ c ≠ '|'

private theorem dropWhile_word {w b : List Char} (hw : ∀ c ∈ w, isBlank c = false) (hb : ∀ c ∈ b, isBlank c = true) :
    (w ++ b).dropWhile isBlank = if w = [] then [] else w ++ b := by
  cases w with
  | nil => exact List.dropWhile_eq_nil_iff.mpr hb
  | cons c w =>
    rw [List.cons_append, List.dropWhile_cons_of_neg (by simp [hw c (by simp)])]
    rfl

private theorem trim_padded {a w b : List Char} (ha : ∀ c ∈ a, isBlank c = true) (hw : ∀ c ∈ w, isBlank c = false)
    (hb : ∀ c ∈ b, isBlank c = true) : trim (a ++ w ++ b) = w := by
  have front : (a ++ w ++ b).dropWhile isBlank = if w = [] then [] else w ++ b := by
    rw [List.append_assoc, List.dropWhile_append_of_pos ha, dropWhile_word hw hb]
  cases w with
  | nil =>
    rw [trim, front]
    rfl
  | cons c w =>
    rw [trim, front, if_neg (by simp), List.reverse_append,
      List.dropWhile_append_of_pos fun x hx => hb x (List.mem_reverse.mp hx)]
    have back := dropWhile_word (w := (c :: w).reverse) (b := []) (fun x hx => hw x (List.mem_reverse.mp hx)) nofun
    rw [List.append_nil, if_neg (by simp)] at back
    rw [back, List.reverse_reverse]

private theorem trim_ne_nil {c : Char} (hc : isBlank c = false) (cs : List Char) :
    (trim (c :: cs)).isEmpty = false := by
  rw [trim, List.dropWhile_cons_of_neg (by simp [hc]), List.isEmpty_eq_false_iff, ne_eq, List.reverse_eq_nil_iff,
    List.dropWhile_eq_nil_iff]
  intro blank
  exact absurd (blank c (by simp)) (by simp [hc])

theorem IsWord.trim {w : List Char} (h : IsWord w) : trim w = w := by
  have := trim_padded (a := []) (b := []) nofun (fun c hc => (h.2 c hc).1) nofun
  rwa [List.nil_append, List.append_nil] at this

private theorem split_of_not_mem {sep : Char} {cs : List Char} (h : sep ∉ cs) : split sep cs = [cs] := by
  induction cs with
  | nil => rfl
  | cons c cs ih =>
    simp only [List.mem_cons, not_or] at h
    rw [split, if_neg (Ne.symm h.1), ih h.2]

private theorem split_append {sep : Char} {cs : List Char} (h : sep ∉ cs) (rest : List Char) :
    split sep (cs ++ sep :: rest) = cs :: split sep rest := by
  induction cs with
  | nil => simp [split]
  | cons c cs ih =>
    simp only [List.mem_cons, not_or] at h
    rw [List.cons_append, split, if_neg (Ne.symm h.1), ih h.2]

end Text

namespace Flags

open Text

/-- Words that are joined by bars stand for what they stand for one by one. -/
theorem ofWords?_split {ws : List (List Char)} (h : ∀ w ∈ ws, IsWord w) (hne : ws ≠ []) (pad : List Char)
    (hp : ∀ c ∈ pad, c = ' ') :
    ofWords? (split '|' (pad ++ List.intercalate [' ', '|', ' '] ws)) = ofWords? ws := by
  -- the blank behind a bar is left to the next piece: the induction is over texts with blanks in front
  induction ws generalizing pad with
  | nil => exact absurd rfl hne
  | cons w ws ih =>
    have word : IsWord w := h w (by simp)
    have blank : ∀ c ∈ pad, Text.isBlank c = true := fun c hc => hp c hc ▸ rfl
    have noBar : '|' ∉ pad ++ w := by
      rw [List.mem_append]
      rintro (hc | hc)
      · exact absurd (hp _ hc) (by decide)
      · exact (word.2 _ hc).2 rfl
    have plain : ∀ c ∈ w, Text.isBlank c = false := fun c hc => (word.2 c hc).1
    cases ws with
    | nil =>
      rw [List.intercalate_singleton, split_of_not_mem noBar]
      have trimmed : trim (pad ++ w) = w := by
        rw [← List.append_nil (pad ++ w)]
        exact trim_padded blank plain nofun
      simp only [ofWords?, trimmed, word.trim]
    | cons w' ws =>
      have pieces : pad ++ List.intercalate [' ', '|', ' '] (w :: w' :: ws) =
          (pad ++ w ++ [' ']) ++ '|' :: ([' '] ++ List.intercalate [' ', '|', ' '] (w' :: ws)) := by
        rw [List.intercalate_cons_cons]
        simp
      have noBar' : '|' ∉ pad ++ w ++ [' '] := by
        rw [List.mem_append]
        rintro (hc | hc)
        · exact noBar hc
        · exact absurd hc (by decide)
      have trimmed : trim (pad ++ w ++ [' ']) = w := trim_padded blank plain (by simp [Text.isBlank])
      rw [pieces, split_append noBar', ofWords?, ofWords?, trimmed, word.trim,
        ih (fun v hv => h v (List.mem_cons_of_mem _ hv)) (by simp) [' '] (by simp)]

/-! ### Words for flags -/

private theorem hexValue?_digitChar {d : Nat} (h : d < 16) : hexValue? d.digitChar = some d := by
  interval_cases d <;> rfl

private theorem exists_of_mem_hexDigits (n : Nat) : ∀ c ∈ hexDigits n, ∃ d < 16, c = d.digitChar := by
  unfold hexDigits
  induction n using Nat.strong_induction_on with
  | _ n ih =>
    intro c hc
    rw [Nat.toDigits_eq_if (by decide)] at hc
    split at hc
    · exact ⟨n, ‹_›, List.mem_singleton.mp hc⟩
    · rcases List.mem_append.mp hc with hc | hc
      · exact ih (n / 16) (by omega) c hc
      · exact ⟨n % 16, Nat.mod_lt _ (by decide), List.mem_singleton.mp hc⟩

private theorem hexFold_append (start : Nat) (cs : List Char) (c : Char) :
    hexFold start (cs ++ [c]) = (hexFold start cs).bind fun n => hexFold n [c] := by
  induction cs generalizing start with
  | nil => rfl
  | cons x cs ih =>
    rw [List.cons_append, hexFold, hexFold]
    cases hexValue? x with
    | none => rfl
    | some d => exact ih _

private theorem hexFold_hexDigits (n : Nat) : hexFold 0 (hexDigits n) = some n := by
  unfold hexDigits
  induction n using Nat.strong_induction_on with
  | _ n ih =>
    rw [Nat.toDigits_eq_if (by decide)]
    split
    · simp only [hexFold, hexValue?_digitChar ‹n < 16›, Nat.mul_zero, Nat.zero_add]
    · have last := hexValue?_digitChar (Nat.mod_lt n (by decide : 0 < 16))
      rw [hexFold_append, ih (n / 16) (by omega)]
      simp only [Option.bind_some, hexFold, last]
      congr 1
      omega

private theorem ofWord?_hex {n : Nat} (h : n < UInt32.size) :
    ofWord? ('0' :: 'x' :: hexDigits n) = some ⟨n.toUInt32⟩ := by
  -- a plus sign may stand before the digits that are read, but is not written
  have noSign : ∀ ds, hexDigits n ≠ '+' :: ds := by
    intro ds hds
    obtain ⟨d, hd, sign⟩ := exists_of_mem_hexDigits n '+' (by rw [hds]; exact List.mem_cons_self)
    revert sign
    interval_cases d <;> decide
  have value : ofHex? (hexDigits n) = some n := by
    rw [ofHex?, if_neg (by rw [List.isEmpty_iff]; exact Nat.toDigits_ne_nil), hexFold_hexDigits]
  unfold ofWord?
  simp only [value, h, if_true]

private theorem isWord_hex (n : Nat) : IsWord ('0' :: 'x' :: hexDigits n) := by
  refine ⟨by simp, fun c hc => ?_⟩
  rcases List.mem_cons.mp hc with rfl | hc
  · exact ⟨rfl, by decide⟩
  rcases List.mem_cons.mp hc with rfl | hc
  · exact ⟨rfl, by decide⟩
  obtain ⟨d, hd, rfl⟩ := exists_of_mem_hexDigits n c hc
  interval_cases d <;> decide

/-! ### Unions -/

private theorem inter_union (f s g : Flags) : (f.inter s).union (f.inter g) = f.inter (s.union g) := by
  have bits : f.bits &&& s.bits ||| f.bits &&& g.bits = f.bits &&& (s.bits ||| g.bits) :=
    UInt32.toBitVec_inj.mp BitVec.and_or_distrib_left.symm
  exact congrArg Flags.mk bits

private theorem union_assoc (f g h : Flags) : (f.union g).union h = f.union (g.union h) := by
  simp only [union, UInt32.or_assoc]

private theorem known_union_nameless (f : Flags) : f.known.union f.nameless = f := by
  have bits : f.bits &&& all.bits ||| f.bits &&& ~~~all.bits = f.bits := by
    apply UInt32.toBitVec_inj.mp
    ext i hi
    simp only [UInt32.toBitVec_or, UInt32.toBitVec_and, UInt32.toBitVec_not, BitVec.getElem_or, BitVec.getElem_and,
      BitVec.getElem_not]
    cases f.bits.toBitVec[i] <;> cases all.bits.toBitVec[i] <;> rfl
  exact congrArg Flags.mk bits

private theorem single_of_mem : ∀ s ∈ singles, ∃ i : Fin 32, s.2.bits.toBitVec = BitVec.twoPow 32 i := by
  decide

private theorem single_ne_empty : ∀ s ∈ singles, s.2 ≠ {} := by
  decide

/-- A flag of one bit is in a set or has nothing in common with it. -/
theorem union_single (f : Flags) {s : String × Flags} (h : s ∈ singles) (g : Flags) :
    (if f.contains s.2 then s.2.union g else g) = (f.inter s.2).union g := by
  obtain ⟨i, hi⟩ := single_of_mem s h
  have bits : f.inter s.2 = s.2 ∨ f.inter s.2 = {} := by
    have and : (f.bits &&& s.2.bits).toBitVec = if f.bits.toBitVec.getLsbD i then s.2.bits.toBitVec else 0#32 := by
      rw [UInt32.toBitVec_and, hi, BitVec.and_twoPow]
    split at and
    · exact .inl (congrArg Flags.mk (UInt32.toBitVec_inj.mp and))
    · exact .inr (congrArg Flags.mk (UInt32.toBitVec_inj.mp and))
  have contains : f.contains s.2 = true ↔ f.inter s.2 = s.2 := by
    rw [Flags.contains, beq_iff_eq]
    exact ⟨congrArg Flags.mk, congrArg Flags.bits⟩
  rcases bits with same | none
  · rw [if_pos (contains.mpr same), same]
  · rw [if_neg fun h' => single_ne_empty s h ((contains.mp h').symm.trans none), none]
    simp [union]

private theorem foldr_names (f g : Flags) : f.names.foldr (fun s g => s.2.union g) g = f.known.union g := by
  have mask : all = singles.foldr (fun s g => s.2.union g) {} := by decide
  have sub : ∀ ss ⊆ singles, ss.foldr (fun s g => if f.contains s.2 then s.2.union g else g) g =
      (f.inter (ss.foldr (fun s g => s.2.union g) {})).union g := by
    intro ss h
    induction ss with
    | nil => simp [inter, union]
    | cons s ss ih =>
      obtain ⟨hs, hss⟩ := List.cons_subset.mp h
      rw [List.foldr_cons, ih hss, union_single f hs, ← union_assoc, inter_union]
      rfl
  rw [names, List.foldr_filter, known, mask]
  exact sub singles (List.Subset.refl _)

/-! ### The text form is read back -/

private theorem ofWord?_single : ∀ s ∈ singles, ofWord? (trim s.1.toList) = some s.2 := by
  decide

private theorem isWord_single : ∀ s ∈ singles, IsWord s.1.toList := by
  have plain : (singles.all fun s =>
      s.1.toList != [] && s.1.toList.all fun c => !Text.isBlank c && c != '|') = true := by decide
  intro s hs
  simpa [IsWord] using List.all_eq_true.mp plain s hs

/-- Every word stands for the flags that it was written for. -/
theorem ofWords?_words (f : Flags) : ofWords? f.words = some f := by
  have hex : ofWords? (if f.nameless.isEmpty then [] else ['0' :: 'x' :: hexDigits f.nameless.bits.toNat]) =
      some f.nameless := by
    split
    · have empty : f.nameless = {} := congrArg Flags.mk (beq_iff_eq.mp ‹_›)
      rw [empty]
      rfl
    · have word : ofWord? ('0' :: 'x' :: hexDigits f.nameless.bits.toNat) = some f.nameless := by
        rw [ofWord?_hex (UInt32.toNat_lt_size _), Nat.toUInt32_eq, UInt32.ofNat_toNat]
      simp only [ofWords?, (isWord_hex _).trim, word]
      simp [union]
  have names : ∀ ss ⊆ singles, ∀ ws g, ofWords? ws = some g →
      ofWords? (ss.map (fun s => s.1.toList) ++ ws) = some (ss.foldr (fun s g => s.2.union g) g) := by
    intro ss h ws g hg
    induction ss with
    | nil => exact hg
    | cons s ss ih =>
      obtain ⟨hs, hss⟩ := List.cons_subset.mp h
      simp only [List.map_cons, List.cons_append, ofWords?, ofWord?_single s hs, ih hss, List.foldr_cons]
  have sub : f.names ⊆ singles := fun s hs => (List.mem_filter.mp hs).1
  rw [words, names f.names sub _ _ hex, foldr_names, known_union_nameless]

private theorem isWord_of_mem_words {f : Flags} : ∀ w ∈ f.words, IsWord w := by
  intro w hw
  rcases List.mem_append.mp hw with hw | hw
  · obtain ⟨s, hs, rfl⟩ := List.mem_map.mp hw
    exact isWord_single s (List.mem_filter.mp hs).1
  · split at hw
    · cases hw
    · obtain rfl := List.mem_singleton.mp hw
      exact isWord_hex _

/-- The text form of flags is read back as these flags. -/
theorem ofSpelling?_spelling (f : Flags) : ofSpelling? f.spelling = some f := by
  have whole := ofWords?_words f
  cases hw : f.words with
  | nil =>
    rw [hw] at whole
    rw [spelling, hw, ← Option.some.inj whole]
    rfl
  | cons w ws =>
    have isWords : ∀ v ∈ w :: ws, IsWord v := hw ▸ isWord_of_mem_words
    have filled : (trim f.spelling).isEmpty = false := by
      obtain ⟨c, rest, hc, begins⟩ : ∃ c rest, Text.isBlank c = false ∧ f.spelling = c :: rest := by
        obtain ⟨ne, plain⟩ := isWords w (by simp)
        obtain ⟨c, cs, rfl⟩ := List.exists_cons_of_ne_nil ne
        rw [spelling, hw]
        cases ws with
        | nil => exact ⟨c, cs, (plain c (by simp)).1, List.intercalate_singleton⟩
        | cons v ws => exact ⟨c, _, (plain c (by simp)).1, List.intercalate_cons_cons⟩
      rw [begins]
      exact trim_ne_nil hc rest
    rw [ofSpelling?, filled, if_neg (by simp), spelling, hw]
    rw [← List.nil_append (List.intercalate _ _), ofWords?_split isWords (by simp) [] nofun, ← hw, whole]

end Flags

end SharedTree
