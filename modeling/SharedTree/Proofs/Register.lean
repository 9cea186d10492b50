import SharedTree.Pass.Register
import SharedTree.Proofs.Error

/-!
# The register of open levels

A pass with a register does what a pass with a budget does, as long as the register and the budget together make up the
limit. In the end the register is as it was in the beginning, whether or not the pass fails; only after a breakdown it
may be left higher.

* `Restored` says this of two results, and `Restores` of two computations. It passes to computations that are put
  together (`Restores.bind`), and opening and closing a level around a computation keeps it (`level_restored`).
* `Register.run_restores` is the statement for the operations.
* `Register.moments` lists the beginnings of operations in a run with a register. They are those of the run without
  one, and at each of them the register holds the number of open nodes (`Register.moments_eq`).
-/

namespace SharedTree.Pass

variable {σ α β : Type}

/-- The same point of a run with a register that holds `d`. -/
def Progress.gauged (p : Progress σ) (d : UInt32) : Progress (Gauged σ) :=
  ⟨⟨p.state, d⟩, p.stats, p.supply, p.trace⟩

/-- The same point of a run without the register. -/
def Progress.ungauged (p : Progress (Gauged σ)) : Progress σ := ⟨p.state.caller, p.stats, p.supply, p.trace⟩

/-! ### Opening and closing a level -/

namespace Register

variable {limit : Nat} {kind : Kind} {d : UInt32}

theorem toNat_succ (h : d.toNat + 1 < UInt32.size) : (d + 1).toNat = d.toNat + 1 := by
  have one : (1 : UInt32).toNat = 1 := rfl
  have size : UInt32.size = 2 ^ 32 := rfl
  rw [UInt32.toNat_add, one]
  exact Nat.mod_eq_of_lt (by omega)

private theorem enter_eq (p : Progress σ) : enter limit kind (p.gauged d) =
    (if limit ≤ d.toNat then Run.fail (.tooDeep limit kind)
      else if d.toNat + 1 = UInt32.size then throw (Halt.crashed "attempt to add with overflow")
      else set ((p.deepen (d + 1).toNat).gauged (d + 1)) : Run (Gauged σ) Unit) (p.gauged d) := rfl

/-- No level is opened when as many are open as the limit allows. -/
theorem enter_full (p : Progress σ) (h : limit ≤ d.toNat) :
    enter limit kind (p.gauged d) = .error (.failed (.tooDeep limit kind)) (p.gauged d) := by
  rw [enter_eq, if_pos h]
  rfl

/-- Opening a level never leaves the range of the register. -/
theorem enter_room (p : Progress σ) (h : d.toNat < limit) (small : limit < UInt32.size) :
    enter limit kind (p.gauged d) = .ok () ((p.deepen (d.toNat + 1)).gauged (d + 1)) := by
  have room : ¬ limit ≤ d.toNat := by omega
  have safe : ¬ d.toNat + 1 = UInt32.size := by omega
  have level : (d + 1).toNat = d.toNat + 1 := toNat_succ (by omega)
  rw [enter_eq, if_neg room, if_neg safe, level]
  rfl

private theorem leave_eq (p : Progress σ) : leave (p.gauged d) =
    (if d = 0 then throw (Halt.crashed "attempt to subtract with overflow")
      else set (p.gauged (d - 1)) : Run (Gauged σ) Unit) (p.gauged d) := rfl

/-- Closing a level that was opened brings the register back. -/
theorem leave_open (p : Progress σ) (h : d.toNat + 1 < UInt32.size) :
    leave (p.gauged (d + 1)) = .ok () (p.gauged d) := by
  have level := toNat_succ h
  have above : ¬ d + 1 = 0 := by
    intro none
    rw [none] at level
    exact absurd level.symm (Nat.succ_ne_zero _)
  have back : d + 1 - 1 = d := by simp
  rw [leave_eq, if_neg above, back]
  rfl

end Register

/-! ### Runs that bring the register back -/

/-- The first result is the second one with a register that holds `d`, or anything after a breakdown. -/
inductive Restored (d : UInt32) : EStateM.Result Halt (Progress (Gauged σ)) α →
    EStateM.Result Halt (Progress σ) α → Prop
  | ok (a : α) (p : Progress σ) : Restored d (.ok a (p.gauged d)) (.ok a p)
  | failed (e : PassError) (p : Progress σ) : Restored d (.error (.failed e) (p.gauged d)) (.error (.failed e) p)
  | crashed (message : String) (d' : UInt32) (p : Progress σ) :
      Restored d (.error (.crashed message) (p.gauged d')) (.error (.crashed message) p)

/-- With a register that holds `d` the first computation does what the second one does without a register. -/
def Restores (d : UInt32) (x : Run (Gauged σ) α) (y : Run σ α) : Prop := ∀ p, Restored d (x (p.gauged d)) (y p)

section Restores

variable {d : UInt32}

theorem Restored.bind {x : EStateM.Result Halt (Progress (Gauged σ)) α} {y : EStateM.Result Halt (Progress σ) α}
    (h : Restored d x y) {x' : Run (Gauged σ) α} {y' : Run σ α} {f : α → Run (Gauged σ) β} {g : α → Run σ β}
    {p : Progress (Gauged σ)} {q : Progress σ} (hx : x' p = x) (hy : y' q = y) (hf : ∀ a, Restores d (f a) (g a)) :
    Restored d ((x' >>= f) p) ((y' >>= g) q) := by
  cases h with
  | ok a r =>
    rw [bind_of_ok hx, bind_of_ok hy]
    exact hf a r
  | failed e r =>
    rw [bind_of_error hx, bind_of_error hy]
    exact .failed e r
  | crashed message d' r =>
    rw [bind_of_error hx, bind_of_error hy]
    exact .crashed message d' r

theorem Restores.bind {x : Run (Gauged σ) α} {y : Run σ α} {f : α → Run (Gauged σ) β} {g : α → Run σ β}
    (hx : Restores d x y) (hf : ∀ a, Restores d (f a) (g a)) : Restores d (x >>= f) (y >>= g) :=
  fun p => (hx p).bind rfl rfl hf

private theorem build_restores (b : Build α) : Restores d (Run.build b : Run (Gauged σ) α) (Run.build b) :=
  fun p => .ok (b p.supply).1 { p with supply := (b p.supply).2 }

private theorem restores_congruence (d : UInt32) :
    Congruence fun {α : Type} (x : Run (Gauged σ) α) (y : Run σ α) => Restores d x y where
  pure a := fun p => .ok a p
  fail e := fun p => .failed e p
  row _ _ := build_restores _
  bind := .bind

/-- What is done on a level brings the register back to the value that it had on the level, and closing the level to
the value that it had before. -/
theorem level_restored {x : Run (Gauged σ) α} {y : Run σ α} {p : Progress σ} (small : d.toNat + 1 < UInt32.size)
    (h : Restored (d + 1) (x (p.gauged (d + 1))) (y p)) :
    Restored d (Register.level x (p.gauged (d + 1))) (y p) := by
  unfold Register.level
  generalize x (p.gauged (d + 1)) = result at h
  generalize y p = result' at h
  cases h with
  | ok a q =>
    have closed : (Register.leave >>= fun _ => pure a) (q.gauged (d + 1)) = .ok a (q.gauged d) :=
      bind_of_ok (Register.leave_open q small)
    show Restored d ((Register.leave >>= fun _ => pure a) (q.gauged (d + 1))) _
    rw [closed]
    exact .ok a q
  | failed e q =>
    have closed : (Register.leave >>= fun _ => throw (Halt.failed e)) (q.gauged (d + 1)) =
        (.error (.failed e) (q.gauged d) : EStateM.Result Halt (Progress (Gauged σ)) α) :=
      bind_of_ok (Register.leave_open q small)
    show Restored d ((Register.leave >>= fun _ => throw (Halt.failed e)) (q.gauged (d + 1))) _
    rw [closed]
    exact .failed e q
  | crashed message d' q => exact .crashed message d' q

variable {t : Transform σ}

private theorem visitWith_restores {below : SharedNode → Run (Gauged σ) SharedNode}
    {below' : SharedNode → Run σ SharedNode} (hb : ∀ n, Restores d (below n) (below' n)) (n : SharedNode) :
    Restores d (visitWith (Register.aside t) below n) (visitWith t below' n) := by
  intro p
  have reply : (p.gauged d).heed n (Register.aside t n (p.gauged d).state) = (p.heed n (t n p.state)).gauged d := rfl
  cases h : (t n p.state).answer with
  | error message =>
    have aside : (Register.aside t n (p.gauged d).state).answer = .error message := h
    rw [visitWith_crashed h, visitWith_crashed aside, reply]
    exact .crashed message d _
  | ok answer =>
    have aside : (Register.aside t n (p.gauged d).state).answer = .ok answer := h
    cases answer with
    | none =>
      rw [visitWith_none h, visitWith_none aside, reply]
      exact .ok none _
    | some m =>
      rw [visitWith_some h, visitWith_some aside, reply]
      exact (hb m).bind (fun m' => (restores_congruence d).pure (some m')) _

/-- What a pass without a register does on a level, and what it does then, is what it does with one. -/
theorem descend_dispatch (t : Transform σ) (limit budget : Nat) (n : SharedNode) (p : Progress σ) :
    Pass.descend t limit (budget + 1) n p =
      (Register.dispatch (Pass.visit t limit budget) n >>= Register.countRebuilt n) (p.deepen (limit - budget)) := by
  unfold Register.dispatch
  cases h : n.kind.isTerminal with
  | true =>
    have same : Register.countRebuilt n n (p.deepen (limit - budget)) = .ok n (p.deepen (limit - budget)) := by
      unfold Register.countRebuilt
      rw [n.same_self]
      rfl
    rw [descend_terminal _ _ _ _ h, if_pos rfl]
    exact same.symm
  | false =>
    rw [descend_inner _ _ _ _ h, if_neg Bool.false_ne_true, bind_assoc]
    rfl

private theorem dispatch_restores {visit : SharedNode → Run (Gauged σ) (Option SharedNode)}
    {visit' : SharedNode → Run σ (Option SharedNode)} (hv : ∀ n, Restores d (visit n) (visit' n)) (n : SharedNode) :
    Restores d (Register.dispatch visit n) (Register.dispatch visit' n) := by
  unfold Register.dispatch
  by_cases h : n.kind.isTerminal = true
  · rw [if_pos h, if_pos h]
    exact (restores_congruence d).pure n
  · rw [if_neg h, if_neg h]
    have fields := (restores_congruence d).visitFields hv n.kind n.fields
    exact fields.bind fun _ => build_restores _

private theorem countRebuilt_restores (n m : SharedNode) :
    Restores d (Register.countRebuilt n m : Run (Gauged σ) SharedNode) (Register.countRebuilt n m) := by
  intro p
  unfold Register.countRebuilt
  cases h : m.same n with
  | true => exact .ok m p
  | false => exact .ok m { p with stats := { p.stats with rebuilt := p.stats.rebuilt + 1 } }

/-- The descent with a register and the descent with a budget, when the open levels and the budget make up the limit. -/
theorem descend_restores {limit budget fuel : Nat} (small : limit < UInt32.size) (together : d.toNat + budget = limit)
    (enough : budget < fuel) (n : SharedNode) :
    Restores d (Register.descend t limit fuel n) (Pass.descend t limit budget n) := by
  induction budget generalizing d fuel n with
  | zero =>
    obtain ⟨fuel, rfl⟩ : ∃ k, fuel = k + 1 := ⟨fuel - 1, by omega⟩
    intro p
    have full : limit ≤ d.toNat := by omega
    unfold Register.descend
    rw [bind_of_error (Register.enter_full p full)]
    exact .failed _ p
  | succ budget ih =>
    obtain ⟨fuel, rfl⟩ : ∃ k, fuel = k + 1 := ⟨fuel - 1, by omega⟩
    intro p
    have room : d.toNat < limit := by omega
    have opened : (d + 1).toNat = d.toNat + 1 := Register.toNat_succ (by omega)
    have level : limit - budget = d.toNat + 1 := by omega
    have visits : ∀ c, Restores (d + 1) (Register.visit t limit fuel c) (Pass.visit t limit budget c) :=
      visitWith_restores fun m => ih (by omega) (by omega) m
    have inside := dispatch_restores visits n (p.deepen (d.toNat + 1))
    have closed := level_restored (by omega) inside
    unfold Register.descend
    rw [bind_of_ok (Register.enter_room p room small), descend_dispatch, level]
    exact closed.bind rfl rfl (countRebuilt_restores n)

end Restores

/-- Carries out an operation under a limit, with fuel for one level more than the limit allows. -/
def Register.run (t : Transform σ) (limit : Nat) : (op : Op) → Run (Gauged σ) op.Result
  | .descend n => descend t limit (limit + 1) n
  | .visit none => return none
  | .visit (some n) => visit t limit (limit + 1) n
  | .visitRow r => visitRow t limit (limit + 1) r

/-- With a register an operation does the same as with the levels that the register leaves under the limit for a
budget, and in the end the register is what it was. -/
theorem Register.run_restores {t : Transform σ} {limit : Nat} (small : limit < UInt32.size) {d : UInt32}
    (room : d.toNat ≤ limit) (op : Op) :
    Restores d (Register.run t limit op) (op.run t limit (limit - d.toNat)) := by
  have descends : ∀ n, Restores d (Register.descend t limit (limit + 1) n)
      (Pass.descend t limit (limit - d.toNat) n) := descend_restores small (by omega) (by omega)
  have visits : ∀ n, Restores d (Register.visit t limit (limit + 1) n) (Pass.visit t limit (limit - d.toNat) n) :=
    visitWith_restores descends
  cases op with
  | descend n => exact descends n
  | visit n =>
    cases n with
    | none => exact (restores_congruence d).pure none
    | some n => exact visits n
  | visitRow r => exact (restores_congruence d).visitRowWith visits r

/-! ### The register at the moments of a run -/

namespace Register

/-- The moments of a descent with a register, in order. -/
def descendMoments (t : Transform σ) (limit : Nat) :
    Nat → List SharedNode → Place → SharedNode → Progress (Gauged σ) → List (Moment (Gauged σ))
  | 0, above, place, n, p => [⟨above, place, .descend n, p⟩]
  | fuel + 1, above, place, n, p =>
    ⟨above, place, .descend n, p⟩ :: following (enter limit n.kind p) fun q =>
      if n.kind.isTerminal then []
      else
        fieldMoments (visit t limit fuel) (n :: above)
          (visitMoments (n :: above) (aside t) (descendMoments t limit fuel (n :: above))) n.kind n.fields q

/-- The moments of a run with a register under a limit, in order. -/
def moments (t : Transform σ) (limit : Nat) : Op → Progress (Gauged σ) → List (Moment (Gauged σ))
  | .descend n, p => descendMoments t limit (limit + 1) [] .root n p
  | .visit none, p => [⟨[], .root, .visit none, p⟩]
  | .visit (some n), p => visitMoments [] (aside t) (descendMoments t limit (limit + 1) []) .root n p
  | .visitRow r, p =>
    rowMoments (visit t limit (limit + 1)) []
      (visitMoments [] (aside t) (descendMoments t limit (limit + 1) [])) .root r p

end Register

/-- The same moment of a run with a register, which holds the number of open nodes. -/
def Moment.gauged (m : Moment σ) : Moment (Gauged σ) :=
  ⟨m.above, m.place, m.op, m.progress.gauged (.ofNat m.above.length)⟩

section Moments

variable {t : Transform σ} {limit : Nat}

section Lists

variable {visit : SharedNode → Run (Gauged σ) (Option SharedNode)} {visit' : SharedNode → Run σ (Option SharedNode)}
  {above : List SharedNode} {inside : Place → SharedNode → Progress (Gauged σ) → List (Moment (Gauged σ))}
  {inside' : Place → SharedNode → Progress σ → List (Moment σ)} {d : UInt32} (hd : d = .ofNat above.length)
  (hv : ∀ n, Restores d (visit n) (visit' n))
  (hin : ∀ place n p, inside place n (p.gauged d) = (inside' place n p).map Moment.gauged)

/-- What is listed behind two computations that come to the same. -/
private theorem following_gauged {x : EStateM.Result Halt (Progress (Gauged σ)) α}
    {y : EStateM.Result Halt (Progress σ) α} (h : Restored d x y)
    {later : Progress (Gauged σ) → List (Moment (Gauged σ))} {later' : Progress σ → List (Moment σ)}
    (hl : ∀ p, later (p.gauged d) = (later' p).map Moment.gauged) :
    following x later = (following y later').map Moment.gauged := by
  cases h with
  | ok a p => exact hl p
  | failed e p => rfl
  | crashed message d' p => rfl

include hv hin

private theorem itemMoments_gauged (items : List SharedNode) (p : Progress σ) :
    itemMoments visit inside items (p.gauged d) = (itemMoments visit' inside' items p).map Moment.gauged := by
  induction items generalizing p with
  | nil => rfl
  | cons n rest ih => rw [itemMoments, itemMoments, List.map_append, hin, following_gauged (hv n p) ih]

include hd

private theorem rowMoments_gauged (place : Place) (r : SharedRow) (p : Progress σ) :
    rowMoments visit above inside place r (p.gauged d) =
      (rowMoments visit' above inside' place r p).map Moment.gauged := by
  rw [rowMoments, rowMoments, List.map_cons, itemMoments_gauged hv hin, Moment.gauged, hd]

private theorem childMoments_gauged (s : Slot) {a : Arity} (c : Child SharedNode SharedRow a) (p : Progress σ) :
    childMoments visit above inside s c (p.gauged d) =
      (childMoments visit' above inside' s c p).map Moment.gauged := by
  cases c with
  | one n => exact hin _ n p
  | opt n =>
    cases n with
    | none => rfl
    | some n => exact hin _ n p
  | row r => exact rowMoments_gauged hd hv hin _ r p
  | optRow r =>
    cases r with
    | none => rfl
    | some r => exact rowMoments_gauged hd hv hin _ r p

private theorem fieldMoments_gauged (parent : Kind) {ss : List Slot} (fs : Fields SharedNode SharedRow ss)
    (p : Progress σ) : fieldMoments visit above inside parent fs (p.gauged d) =
      (fieldMoments visit' above inside' parent fs p).map Moment.gauged := by
  induction fs generalizing p with
  | nil => rfl
  | @cons s ss c rest ih =>
    have child := (restores_congruence d).visitChild hv parent s.label c p
    rw [fieldMoments, fieldMoments, List.map_append, childMoments_gauged hd hv hin, following_gauged child ih]

end Lists

private theorem visitMoments_gauged (above : List SharedNode) {d : UInt32} (hd : d = .ofNat above.length)
    {below : Place → SharedNode → Progress (Gauged σ) → List (Moment (Gauged σ))}
    {below' : Place → SharedNode → Progress σ → List (Moment σ)}
    (hb : ∀ place n p, below place n (p.gauged d) = (below' place n p).map Moment.gauged) (place : Place)
    (n : SharedNode) (p : Progress σ) : visitMoments above (Register.aside t) below place n (p.gauged d) =
      (visitMoments above t below' place n p).map Moment.gauged := by
  have first : (⟨above, place, .visit (some n), p.gauged d⟩ : Moment (Gauged σ)) =
      Moment.gauged ⟨above, place, .visit (some n), p⟩ := by rw [Moment.gauged, hd]
  have reply : (p.gauged d).heed n (Register.aside t n (p.gauged d).state) = (p.heed n (t n p.state)).gauged d := rfl
  have answer : (Register.aside t n (p.gauged d).state).answer = (t n p.state).answer := rfl
  rw [visitMoments, visitMoments, List.map_cons, first, answer, reply]
  cases (t n p.state).answer with
  | error message => rfl
  | ok answer =>
    cases answer with
    | none => rfl
    | some m => exact congrArg (_ :: ·) (hb place m _)

private theorem toNat_ofNat {k : Nat} (small : limit < UInt32.size) (h : k ≤ limit) : (UInt32.ofNat k).toNat = k :=
  UInt32.toNat_ofNat_of_lt' (Nat.lt_of_le_of_lt h small)

private theorem descendMoments_gauged (small : limit < UInt32.size) {budget fuel : Nat} {above : List SharedNode}
    (together : above.length + budget = limit) (enough : budget < fuel) (place : Place) (n : SharedNode)
    (p : Progress σ) : Register.descendMoments t limit fuel above place n (p.gauged (.ofNat above.length)) =
      (Pass.descendMoments t limit budget above place n p).map Moment.gauged := by
  induction budget generalizing above fuel place n p with
  | zero =>
    obtain ⟨fuel, rfl⟩ : ∃ k, fuel = k + 1 := ⟨fuel - 1, by omega⟩
    have held := toNat_ofNat small (show above.length ≤ limit by omega)
    have full : Register.enter limit n.kind (p.gauged (.ofNat above.length)) = _ := Register.enter_full p (by omega)
    rw [Register.descendMoments, full]
    rfl
  | succ budget ih =>
    obtain ⟨fuel, rfl⟩ : ∃ k, fuel = k + 1 := ⟨fuel - 1, by omega⟩
    have length : (n :: above).length = above.length + 1 := List.length_cons
    have held := toNat_ofNat small (show above.length ≤ limit by omega)
    have held' := toNat_ofNat small (show (n :: above).length ≤ limit by omega)
    have level : limit - budget = above.length + 1 := by omega
    have next : UInt32.ofNat above.length + 1 = .ofNat (n :: above).length := by
      rw [← UInt32.toNat_inj, Register.toNat_succ (by omega), held, held', length]
    have room : Register.enter limit n.kind (p.gauged (.ofNat above.length)) = _ :=
      Register.enter_room p (by omega) small
    have visits (c : SharedNode) : Restores (.ofNat (n :: above).length) (Register.visit t limit fuel c)
        (Pass.visit t limit budget c) := visitWith_restores (descend_restores small (by omega) (by omega)) c
    have below (place : Place) (c : SharedNode) (q : Progress σ) :
        Register.descendMoments t limit fuel (n :: above) place c (q.gauged (.ofNat (n :: above).length)) =
          (Pass.descendMoments t limit budget (n :: above) place c q).map Moment.gauged :=
      ih (by omega) (by omega) place c q
    have fields := fieldMoments_gauged rfl visits (visitMoments_gauged (t := t) _ rfl below) n.kind n.fields
    rw [Register.descendMoments, Pass.descendMoments, List.map_cons, room, held, next, level, following]
    by_cases terminal : n.kind.isTerminal = true
    · rw [if_pos terminal, if_pos terminal]
      rfl
    · rw [if_neg terminal, if_neg terminal, fields]
      rfl

/-- The moments of a run with a register are those of the run without one, and at each of them the register holds the
number of open nodes. -/
theorem Register.moments_eq (small : limit < UInt32.size) (op : Op) (p : Progress σ) :
    Register.moments t limit op (p.gauged 0) = (op.moments t limit p).map Moment.gauged := by
  have descends (place : Place) (n : SharedNode) (p : Progress σ) :
      Register.descendMoments t limit (limit + 1) [] place n (p.gauged 0) =
        (Pass.descendMoments t limit limit [] place n p).map Moment.gauged :=
    descendMoments_gauged small (Nat.zero_add limit) (Nat.lt_succ_self _) place n p
  cases op with
  | descend n => exact descends .root n p
  | visit n =>
    cases n with
    | none => rfl
    | some n => exact visitMoments_gauged [] rfl descends .root n p
  | visitRow r =>
    have visits (c : SharedNode) : Restores 0 (Register.visit t limit (limit + 1) c) (Pass.visit t limit limit c) :=
      visitWith_restores (descend_restores small (Nat.zero_add limit) (Nat.lt_succ_self _)) c
    have none : (0 : UInt32) = .ofNat ([] : List SharedNode).length := rfl
    exact rowMoments_gauged none visits (visitMoments_gauged [] rfl descends) .root r p

end Moments

end SharedTree.Pass
