import SharedTree.Proofs.Chronicle
import SharedTree.Proofs.Record

/-!
# Failures

A run fails for one of three reasons. The transform breaks down, it removes a node that its parent cannot do without,
or a level is due when as many levels are open as the limit allows. `Moment.Fails` says at which moments this happens.

* `Tracks` says that a list of moments accounts for what a computation comes to: it has made the calls of the visits
  among them, and it has failed at the last one if it has failed at all. `tracks_chronicle` puts two computations
  together.
* `Op.tracks`: the moments of an operation account for it.
* `Tracks.error_of_fails`, `Tracks.fails_of_error`: a computation fails if and only if there is a moment at which it has
  to, and that moment is the last one.
-/

namespace SharedTree.Pass

open Transform (Call)

variable {σ α β : Type}

/-! ### Moments at which a run fails -/

/-- A run fails at this moment with an error, in the given progress. -/
inductive Moment.Fails (t : Transform σ) (limit : Nat) : Moment σ → Halt → Progress σ → Prop
  /-- The transform breaks down. -/
  | crashed {above : List SharedNode} {place : Place} {n : SharedNode} {p : Progress σ} {message : String}
      (h : (t n p.state).answer = .error message) :
      Fails t limit ⟨above, place, .visit (some n), p⟩ (.crashed message) (p.heed n (t n p.state))
  /-- The transform removes the node in a slot that must be filled. -/
  | removed {parent : SharedNode} {above : List SharedNode} {s : Slot} {n : SharedNode} {p : Progress σ}
      (required : s.arity = .one) (h : (t n p.state).answer = .ok none) :
      Fails t limit ⟨parent :: above, .slot s, .visit (some n), p⟩
        (.failed (.requiredRemoved parent.kind s.label)) (p.heed n (t n p.state))
  /-- A level is due, and the limit does not allow another one. -/
  | tooDeep {above : List SharedNode} {place : Place} {n : SharedNode} {p : Progress σ} (h : above.length = limit) :
      Fails t limit ⟨above, place, .descend n, p⟩ (.failed (.tooDeep limit n.kind)) p

/-- None of the moments is one at which a run fails. -/
def Smooth (t : Transform σ) (limit : Nat) (ms : List (Moment σ)) : Prop :=
  ∀ m ∈ ms, ∀ e q, ¬ m.Fails t limit e q

/-- The moments end with the first one at which a run fails, with the given error and progress. -/
def Breaks (t : Transform σ) (limit : Nat) (ms : List (Moment σ)) (e : Halt) (q : Progress σ) : Prop :=
  ∃ before m, ms = before ++ [m] ∧ Smooth t limit before ∧ m.Fails t limit e q

section Endings

variable {t : Transform σ} {limit : Nat} {ms ns : List (Moment σ)} {m : Moment σ} {e : Halt} {q : Progress σ}

theorem Smooth.nil : Smooth t limit [] := fun _ h => absurd h List.not_mem_nil

theorem Smooth.append (h : Smooth t limit ms) (h' : Smooth t limit ns) : Smooth t limit (ms ++ ns) := by
  intro m hm
  rcases List.mem_append.mp hm with hm | hm
  · exact h m hm
  · exact h' m hm

private theorem Smooth.singleton (h : ∀ e q, ¬ m.Fails t limit e q) : Smooth t limit [m] := by
  intro m' hm
  rw [List.mem_singleton.mp hm]
  exact h

theorem Breaks.append (h : Smooth t limit ms) (h' : Breaks t limit ns e q) : Breaks t limit (ms ++ ns) e q := by
  obtain ⟨before, m, rfl, smooth, fails⟩ := h'
  exact ⟨ms ++ before, m, (List.append_assoc ..).symm, h.append smooth, fails⟩

private theorem Breaks.singleton (h : m.Fails t limit e q) : Breaks t limit [m] e q := ⟨[], m, rfl, .nil, h⟩

/-- Where moments break, the last one of them is the only one at which a run fails. -/
theorem Breaks.last (h : Breaks t limit ms e q) {e' : Halt} {q' : Progress σ} (hm : m ∈ ms)
    (fails : m.Fails t limit e' q') : ms.getLast? = some m := by
  obtain ⟨before, last, rfl, smooth, -⟩ := h
  rcases List.mem_append.mp hm with hm | hm
  · exact absurd fails (smooth m hm e' q')
  · rw [List.mem_singleton.mp hm, List.getLast?_concat]

private theorem Moment.not_fails_visitRow (above : List SharedNode) (place : Place) (r : SharedRow) (p : Progress σ)
    (e : Halt) (q : Progress σ) : ¬ Moment.Fails t limit ⟨above, place, .visitRow r, p⟩ e q := by
  intro fails
  cases fails

/-- An operation fails in one way. -/
theorem Moment.Fails.unique (h : m.Fails t limit e q) {e' : Halt} {q' : Progress σ} (h' : m.Fails t limit e' q') :
    e = e' ∧ q = q' := by
  cases h with
  | crashed ha =>
    cases h' with
    | crashed ha' =>
      rw [ha] at ha'
      cases ha'
      exact ⟨rfl, rfl⟩
    | removed required ha' =>
      rw [ha] at ha'
      cases ha'
  | removed required ha =>
    cases h' with
    | crashed ha' =>
      rw [ha] at ha'
      cases ha'
    | removed required' ha' => exact ⟨rfl, rfl⟩
  | tooDeep hd =>
    cases h' with
    | tooDeep hd' => exact ⟨rfl, rfl⟩

end Endings

/-! ### Accounting for a computation -/

/-- The call that is made at a moment, if a node is visited there. -/
def Moment.call? (t : Transform σ) (m : Moment (Logged σ)) : Option (Call σ) :=
  match m.op with
  | .visit (some n) => some (t.call n m.progress.state.1)
  | _ => none

/-- The moments account for what a computation comes to: it has made the calls of the visits among them, and it has
failed where they break, or they do not break. -/
structure Tracks (t : Transform σ) (limit : Nat) (ms : List (Moment (Logged σ)))
    (p : Progress (Logged σ)) (result : EStateM.Result Halt (Progress (Logged σ)) α) : Prop where
  calls : (after result).state.2 = (ms.filterMap (Moment.call? t)).reverse ++ p.state.2
  smooth : ∀ a q, result = .ok a q → Smooth t.recorded limit ms
  breaks : ∀ e q, result = .error e q → Breaks t.recorded limit ms e q

/-- The same for the visit of a node. If the answer is none, the visit has no other moment than its beginning, and it
depends on the place whether a run fails there. -/
structure VisitTracks (t : Transform σ) (limit : Nat) (above : List SharedNode) (place : Place) (n : SharedNode)
    (ms : List (Moment (Logged σ))) (p : Progress (Logged σ))
    (result : EStateM.Result Halt (Progress (Logged σ)) (Option SharedNode)) : Prop where
  calls : (after result).state.2 = (ms.filterMap (Moment.call? t)).reverse ++ p.state.2
  kept : ∀ m q, result = .ok (some m) q → Smooth t.recorded limit ms
  dropped : ∀ q, result = .ok none q → ms = [⟨above, place, .visit (some n), p⟩] ∧
    (t.recorded n p.state).answer = .ok none ∧ q = p.heed n (t.recorded n p.state)
  breaks : ∀ e q, result = .error e q → Breaks t.recorded limit ms e q

/-- At this place a node may be removed. -/
def Place.Spares (place : Place) : Prop := ∀ s, place = .slot s → s.arity ≠ .one

section Tracks

variable {t : Transform σ} {limit : Nat} {ms : List (Moment (Logged σ))}
  {p : Progress (Logged σ)}

theorem Place.Spares.not_fails {above : List SharedNode} {place : Place} (hp : place.Spares) {n : SharedNode}
    (answer : (t.recorded n p.state).answer = .ok none) (e : Halt) (q : Progress (Logged σ)) :
    ¬ Moment.Fails t.recorded limit ⟨above, place, .visit (some n), p⟩ e q := by
  intro fails
  cases fails with
  | crashed h =>
    rw [answer] at h
    cases h
  | removed required h => exact hp _ rfl required

theorem VisitTracks.tracks {above : List SharedNode} {place : Place} {n : SharedNode}
    {result : EStateM.Result Halt (Progress (Logged σ)) (Option SharedNode)}
    (h : VisitTracks t limit above place n ms p result) (hp : place.Spares) : Tracks t limit ms p result := by
  refine ⟨h.calls, ?_, h.breaks⟩
  intro a q hq
  cases a with
  | some m => exact h.kept m q hq
  | none =>
    obtain ⟨hms, answer, -⟩ := h.dropped q hq
    rw [hms]
    exact .singleton (hp.not_fails answer)

private theorem Tracks.of_ok {a : α} {q : Progress (Logged σ)}
    (calls : q.state.2 = (ms.filterMap (Moment.call? t)).reverse ++ p.state.2) (smooth : Smooth t.recorded limit ms) :
    Tracks t limit ms p (.ok a q) := by
  refine ⟨calls, fun _ _ _ => smooth, ?_⟩
  intro e q h
  cases h

theorem Tracks.of_error {e : Halt} {q : Progress (Logged σ)}
    (calls : q.state.2 = (ms.filterMap (Moment.call? t)).reverse ++ p.state.2)
    (breaks : Breaks t.recorded limit ms e q) :
    Tracks t limit ms p (.error e q : EStateM.Result Halt (Progress (Logged σ)) α) := by
  refine ⟨calls, ?_, ?_⟩
  · intro a q h
    cases h
  · intro e q h
    cases h
    exact breaks

theorem Tracks.nil {a : α} {q : Progress (Logged σ)} (h : q.state = p.state) :
    Tracks t limit [] p (.ok a q) :=
  .of_ok (congrArg Prod.snd h) .nil

/-- Moments account for two computations in a row if they do so for each of them. -/
theorem Tracks.bind {x : Run (Logged σ) α} {f : α → Run (Logged σ) β}
    {later : Progress (Logged σ) → List (Moment (Logged σ))} (hx : Tracks t limit ms p (x p))
    (hf : ∀ a q, x p = .ok a q → Tracks t limit (later q) q (f a q)) :
    Tracks t limit (ms ++ following (x p) later) p ((x >>= f) p) := by
  have calls := hx.calls
  cases h : x p with
  | ok a q =>
    rw [h] at calls
    rw [bind_of_ok h]
    have next := hf a q h
    have first := hx.smooth a q h
    refine ⟨?_, ?_, ?_⟩
    · have both : (ms ++ later q).filterMap (Moment.call? t) =
          ms.filterMap (Moment.call? t) ++ (later q).filterMap (Moment.call? t) := List.filterMap_append
      show (after (f a q)).state.2 = ((ms ++ later q).filterMap (Moment.call? t)).reverse ++ p.state.2
      rw [next.calls, show q.state.2 = _ from calls, both, List.reverse_append, List.append_assoc]
    · exact fun b r hr => first.append (next.smooth b r hr)
    · exact fun e r hr => (next.breaks e r hr).append first
  | error e q =>
    rw [h] at calls
    rw [bind_of_error h]
    have none : ms ++ following (.error e q : EStateM.Result Halt (Progress (Logged σ)) α) later = ms :=
      List.append_nil ms
    rw [none]
    exact .of_error calls (hx.breaks e q h)

/-- What is known of two computations in a row is known of both together. -/
theorem tracks_chronicle (t : Transform σ) (limit : Nat) :
    Chronicle fun {α : Type} _ (x : Run (Logged σ) α) listed => ∀ p, Tracks t limit (listed p) p (x p) where
  pure _ _ := .nil rfl
  bind hx hf p := (hx p).bind fun a q _ => hf a q

/-- What returns in the same state of the caller adds no moments. -/
theorem Tracks.bind_total {x : Run (Logged σ) α} {f : α → Run (Logged σ) β}
    (hx : Tracks t limit ms p (x p)) (hf : ∀ a q, ∃ b r, f a q = .ok b r ∧ r.state = q.state) :
    Tracks t limit ms p ((x >>= f) p) := by
  have both : Tracks t limit (ms ++ following (x p) fun _ => []) p ((x >>= f) p) := by
    refine hx.bind fun a q _ => ?_
    obtain ⟨b, r, hr, hs⟩ := hf a q
    rw [hr]
    exact .nil hs
  rwa [following_nil, List.append_nil] at both

/-- A moment at which no run fails and no node is visited may stand before the others. -/
theorem Tracks.cons {m : Moment (Logged σ)}
    {result : EStateM.Result Halt (Progress (Logged σ)) α} (hm : ∀ e q, ¬ m.Fails t.recorded limit e q)
    (hc : m.call? t = none) (h : Tracks t limit ms p result) : Tracks t limit (m :: ms) p result := by
  have first : Smooth t.recorded limit [m] := .singleton hm
  refine ⟨?_, ?_, ?_⟩
  · rw [List.filterMap_cons_none hc]
    exact h.calls
  · exact fun a q hq => first.append (h.smooth a q hq)
  · exact fun e q hq => (h.breaks e q hq).append first

section Level

variable {visit : SharedNode → Run (Logged σ) (Option SharedNode)} {above : List SharedNode}
  {inside : Place → SharedNode → Progress (Logged σ) → List (Moment (Logged σ))}

private theorem rows_track (hin : ∀ place n p, VisitTracks t limit above place n (inside place n p) p (visit n p)) :
    Chronicle.Rows (fun {α : Type} _ (x : Run (Logged σ) α) listed => ∀ p, Tracks t limit (listed p) p (x p))
      visit above inside where
  element n p := (hin .element n p).tracks nofun
  row place r visits p := by
    have items : Tracks t limit (itemMoments visit inside r.items p) p (visitRowWith visit r p) := by
      refine (visits p).bind_total fun changed q => ?_
      cases changed with
      | none => exact ⟨_, q, rfl, rfl⟩
      | some items => exact ⟨_, _, rfl, rfl⟩
    exact items.cons (Moment.not_fails_visitRow above place r p) rfl

/-- Where a slot must be filled the visit of the node may succeed, and yet the parent cannot do without the node. -/
private theorem VisitTracks.required {parent : SharedNode} {up : List SharedNode} {s : Slot} (hs : s.arity = .one)
    {n : SharedNode} (h : VisitTracks t limit (parent :: up) (.slot s) n ms p (visit n p)) :
    Tracks t limit ms p (visitChild visit parent.kind s.label (.one n) p) := by
  have calls := h.calls
  cases hn : visit n p with
  | error e q =>
    rw [hn] at calls
    rw [visitChild_one_error hn]
    exact .of_error calls (h.breaks e q hn)
  | ok answer q =>
    rw [hn] at calls
    cases answer with
    | some m =>
      rw [visitChild_one hn]
      exact .of_ok calls (h.kept m q hn)
    | none =>
      obtain ⟨rfl, answer, rfl⟩ := h.dropped q hn
      rw [visitChild_one_removed hn]
      exact .of_error rfl (.singleton (.removed hs answer))

private theorem level_tracks (parent : SharedNode) (up : List SharedNode)
    (hin : ∀ place n p, VisitTracks t limit (parent :: up) place n (inside place n p) p (visit n p)) :
    Chronicle.Level (fun {α : Type} _ (x : Run (Logged σ) α) listed => ∀ p, Tracks t limit (listed p) p (x p))
      visit (parent :: up) inside parent.kind where
  toRows := rows_track hin
  optional s n hs p := by
    have spares : (Place.slot s).Spares := by
      rintro s' ⟨rfl⟩ one
      rw [hs] at one
      cases one
    exact (hin (.slot s) n p).tracks spares
  required s n hs p := (hin (.slot s) n p).required hs

end Level

section Visit

variable {above : List SharedNode} {place : Place} {n : SharedNode}

/-- The transform breaks down at the beginning of the visit. -/
private theorem VisitTracks.crashed {message : String} (h : (t.recorded n p.state).answer = .error message) :
    VisitTracks t limit above place n [⟨above, place, .visit (some n), p⟩] p
      (.error (.crashed message) (p.heed n (t.recorded n p.state))) where
  calls := rfl
  kept := nofun
  dropped := nofun
  breaks e q stopped := by
    cases stopped
    exact .singleton (.crashed h)

private theorem VisitTracks.removed (h : (t.recorded n p.state).answer = .ok none) :
    VisitTracks t limit above place n [⟨above, place, .visit (some n), p⟩] p
      (.ok none (p.heed n (t.recorded n p.state))) where
  calls := rfl
  kept := nofun
  dropped q ended := by
    cases ended
    exact ⟨rfl, h, rfl⟩
  breaks := nofun

/-- Nothing fails at the beginning of a visit that goes on below an answer. -/
private theorem VisitTracks.answered {below : SharedNode → Run (Logged σ) SharedNode} {m : SharedNode}
    (h : (t.recorded n p.state).answer = .ok (some m))
    (inner : Tracks t limit ms (p.heed n (t.recorded n p.state))
      ((below m >>= fun m' => pure (some m')) (p.heed n (t.recorded n p.state)))) :
    VisitTracks t limit above place n (⟨above, place, .visit (some n), p⟩ :: ms) p
      ((below m >>= fun m' => pure (some m')) (p.heed n (t.recorded n p.state))) := by
  have first : Smooth t.recorded limit [⟨above, place, .visit (some n), p⟩] := by
    refine .singleton fun e r fails => ?_
    cases fails with
    | crashed h' | removed _ h' =>
      rw [h] at h'
      cases h'
  refine ⟨?_, fun m' r hr => first.append (inner.smooth _ r hr), fun r hr => ?_,
    fun e r hr => (inner.breaks e r hr).append first⟩
  · rw [← List.singleton_append, inner.calls, List.filterMap_append, List.reverse_append, List.append_assoc]
    rfl
  · obtain ⟨m', r', -, hr'⟩ := bind_eq_ok hr
    cases hr'

private theorem visitWith_tracks {below : SharedNode → Run (Logged σ) SharedNode}
    {inside : Place → SharedNode → Progress (Logged σ) → List (Moment (Logged σ))}
    (hb : ∀ place n p, Tracks t limit (inside place n p) p (below n p)) (place : Place) (n : SharedNode)
    (p : Progress (Logged σ)) :
    VisitTracks t limit above place n (visitMoments above t.recorded inside place n p) p
      (visitWith t.recorded below n p) := by
  cases h : (t.recorded n p.state).answer with
  | error message =>
    rw [visitMoments_alone place (by simp [h]), visitWith_crashed h]
    exact .crashed h
  | ok answer =>
    cases answer with
    | none =>
      rw [visitMoments_alone place (by simp [h]), visitWith_none h]
      exact .removed h
    | some m =>
      rw [visitMoments_answered place h, visitWith_some h]
      exact .answered h ((tracks_chronicle t limit).bind_pure [m] (hb place m) _)

end Visit

private theorem descend_tracks {budget : Nat} {above : List SharedNode} (h : above.length + budget = limit)
    (place : Place) (n : SharedNode) (p : Progress (Logged σ)) :
    Tracks t limit (descendMoments t.recorded limit budget above place n p) p
      (descend t.recorded limit budget n p) := by
  induction budget generalizing above place n p with
  | zero =>
    exact .of_error rfl (.singleton (.tooDeep h))
  | succ budget ih =>
    have opens : ∀ e q, ¬ Moment.Fails t.recorded limit ⟨above, place, .descend n, p⟩ e q := by
      intro e q fails
      cases fails with
      | tooDeep full => omega
    rw [descendMoments]
    refine Tracks.cons opens rfl ?_
    cases hn : n.kind.isTerminal with
    | true =>
      rw [descend_terminal t.recorded limit budget p hn]
      exact .nil rfl
    | false =>
      rw [descend_inner t.recorded limit budget p hn, if_neg Bool.false_ne_true]
      have length : (n :: above).length + budget = limit := by
        rw [List.length_cons]
        omega
      have level := level_tracks n above (visitWith_tracks (ih length))
      have visits := (tracks_chronicle t limit).visitFields level n.fields (p.deepen (limit - budget))
      have inner := visits.bind_total (rebuild_returns n)
      exact ⟨inner.calls, inner.smooth, inner.breaks⟩

/-- The moments of an operation account for it. -/
theorem Op.tracks (op : Op) (p : Progress (Logged σ)) :
    Tracks t limit (op.moments t.recorded limit p) p (op.run t.recorded limit limit p) := by
  have descends : ∀ place n p, Tracks t limit (descendMoments t.recorded limit limit [] place n p) p
      (Pass.descend t.recorded limit limit n p) := descend_tracks (Nat.zero_add limit)
  have spares : Place.root.Spares := nofun
  cases op with
  | descend n => exact descends .root n p
  | visit n =>
    cases n with
    | none =>
      have nothing : Tracks t limit [] p (.ok none p : EStateM.Result Halt _ (Option SharedNode)) := .nil rfl
      refine nothing.cons (fun e q fails => ?_) rfl
      cases fails
    | some n => exact (visitWith_tracks descends .root n p).tracks spares
  | visitRow r => exact (tracks_chronicle t limit).visitRowWith (rows_track (visitWith_tracks descends)) .root r p

/-- A computation comes to an error exactly if one of the moments that account for it fails so, and that moment is the
last one. -/
theorem Tracks.error_of_fails {result : EStateM.Result Halt (Progress (Logged σ)) α}
    (h : Tracks t limit ms p result) {m : Moment (Logged σ)} (hm : m ∈ ms) {e : Halt}
    {q : Progress (Logged σ)} (fails : m.Fails t.recorded limit e q) :
    result = .error e q ∧ ms.getLast? = some m := by
  cases hr : result with
  | ok a q' => exact absurd fails (h.smooth a q' hr m hm e q)
  | error e' q' =>
    have breaks := h.breaks e' q' hr
    have last := breaks.last hm fails
    obtain ⟨before, m', rfl, -, fails'⟩ := breaks
    rw [List.getLast?_concat] at last
    obtain rfl := Option.some.inj last
    obtain ⟨rfl, rfl⟩ := fails.unique fails'
    exact ⟨rfl, List.getLast?_concat⟩

theorem Tracks.fails_of_error {result : EStateM.Result Halt (Progress (Logged σ)) α}
    (h : Tracks t limit ms p result) {e : Halt} {q : Progress (Logged σ)} (hr : result = .error e q) :
    ∃ m ∈ ms, ms.getLast? = some m ∧ m.Fails t.recorded limit e q := by
  obtain ⟨before, m, rfl, -, fails⟩ := h.breaks e q hr
  exact ⟨m, List.mem_append_right before List.mem_cons_self, List.getLast?_concat, fails⟩

end Tracks

end SharedTree.Pass
