import SharedTree.Proofs.Error
import SharedTree.Proofs.Keeping
import SharedTree.Proofs.Listing

/-!
# Passes walk over the children of a node

A pass goes through the slots of a node, and callers are given what is listed kind by kind (`Node.listed`). The two
agree on what the children of a node are. The calls that a descent makes while no other node than its own is open are
about the children that are listed, one by one and in order. If the descent fails, they are about the first ones of
them, up to the one at which it fails.

* `callsUnder` picks the calls under a given number of open nodes from the moments of a run.
* `Walks` says that these calls are about some nodes, or about the first ones if the computation stops;
  `walks_chronicle` puts two computations together.
* `Runner.descend_walks_children` is the statement for a run of a runner.
-/

namespace SharedTree.Pass

open Transform (Call)

variable {σ α β : Type}

/-! ### Open nodes -/

/-- What holds of the moments of two computations holds of all moments of the two in a row. -/
private theorem forall_chronicle (P : Moment σ → Prop) :
    Chronicle fun {α : Type} _ (_ : Run σ α) listed => ∀ p, ∀ m ∈ listed p, P m where
  pure _ _ _ hm := absurd hm List.not_mem_nil
  bind {_ _ _ _ x _ listed later} hx hf p m hm := by
    rcases List.mem_append.mp hm with hm | hm
    · exact hx p m hm
    · cases h : x p with
      | error e q => rw [h] at hm; exact absurd hm List.not_mem_nil
      | ok a q => rw [h] at hm; exact hf a q m hm

section Above

variable {visit : SharedNode → Run σ (Option SharedNode)} {above : List SharedNode}
  {inside : Place → SharedNode → Progress σ → List (Moment σ)} {P : Moment σ → Prop}

/-- What holds of the moments at which rows and nodes are visited holds of all moments at a level. -/
private theorem forall_level (hrow : ∀ place r p, P ⟨above, place, .visitRow r, p⟩)
    (hin : ∀ place n p, ∀ m ∈ inside place n p, P m) (parent : Kind) :
    Chronicle.Level (fun {α : Type} _ (_ : Run σ α) listed => ∀ p, ∀ m ∈ listed p, P m) visit above inside parent where
  element := hin .element
  row place r items p := List.forall_mem_cons.mpr ⟨hrow place r p, items p⟩
  optional s n _ := hin (.slot s) n
  required s n _ := hin (.slot s) n

end Above

section Depth

variable {t : Transform σ} {limit : Nat}

private theorem suffix_of_mem_visitMoments {above : List SharedNode}
    {below : Place → SharedNode → Progress σ → List (Moment σ)}
    (hb : ∀ place n p, ∀ m ∈ below place n p, above <:+ m.above) (place : Place) (n : SharedNode) (p : Progress σ) :
    ∀ m ∈ visitMoments above t below place n p, above <:+ m.above := by
  intro m hm
  rcases mem_visitMoments place hm with rfl | ⟨k, -, deeper⟩
  · exact List.suffix_rfl
  · exact hb place k _ m deeper

/-- What is open when a descent begins stays open throughout, and behind the beginning its node is open as well. -/
private theorem suffix_of_mem_descendMoments (budget : Nat) (above : List SharedNode) (place : Place) (n : SharedNode)
    (p : Progress σ) : ∀ m ∈ descendMoments t limit budget above place n p,
      m = ⟨above, place, .descend n, p⟩ ∨ n :: above <:+ m.above := by
  induction budget generalizing above place n p with
  | zero => exact fun m hm => .inl (List.mem_singleton.mp hm)
  | succ budget ih =>
    intro m hm
    rcases List.mem_cons.mp hm with rfl | hm
    · exact .inl rfl
    · right
      cases hn : n.kind.isTerminal with
      | true =>
        rw [hn] at hm
        exact absurd hm List.not_mem_nil
      | false =>
        rw [hn, if_neg Bool.false_ne_true] at hm
        have visits : ∀ place c q,
            ∀ m ∈ visitMoments (n :: above) t (descendMoments t limit budget (n :: above)) place c q,
              n :: above <:+ m.above := by
          refine suffix_of_mem_visitMoments fun place c q m hm => ?_
          rcases ih (n :: above) place c q m hm with rfl | suffix
          · exact List.suffix_rfl
          · exact (List.suffix_cons c (n :: above)).trans suffix
        have open_below := forall_chronicle (σ := σ) fun m => n :: above <:+ m.above
        exact open_below.visitFields (forall_level (fun _ _ _ => List.suffix_rfl) visits n.kind) n.fields _ m hm

end Depth

/-! ### Calls under open nodes -/

/-- The calls at some moments of a run, of those at which the given number of nodes is open. -/
def callsUnder (t : Transform σ) (opened : Nat) (ms : List (Moment (Logged σ))) : List (Call σ) :=
  (ms.filter fun m => m.above.length == opened).filterMap (Moment.call? t)

section Calls

variable {t : Transform σ} {opened : Nat}

private theorem callsUnder_append (ms ns : List (Moment (Logged σ))) :
    callsUnder t opened (ms ++ ns) = callsUnder t opened ms ++ callsUnder t opened ns := by
  simp only [callsUnder, List.filter_append, List.filterMap_append]

/-- A moment at which no node is visited makes no call. -/
theorem callsUnder_cons_of_silent {m : Moment (Logged σ)} (h : m.call? t = none) (ms : List (Moment (Logged σ))) :
    callsUnder t opened (m :: ms) = callsUnder t opened ms := by
  unfold callsUnder
  rw [List.filter_cons]
  split
  · rw [List.filterMap_cons_none h]
  · rfl

private theorem callsUnder_eq_nil {ms : List (Moment (Logged σ))} (h : ∀ m ∈ ms, opened < m.above.length) :
    callsUnder t opened ms = [] := by
  have none : (ms.filter fun m => m.above.length == opened) = [] := by
    rw [List.filter_eq_nil_iff]
    intro m hm
    have := h m hm
    simp only [beq_iff_eq]
    omega
  rw [callsUnder, none, List.filterMap_nil]

private theorem callsUnder_descendMoments {limit : Nat} (budget : Nat) (above : List SharedNode) (place : Place)
    (n : SharedNode) (p : Progress (Logged σ)) :
    callsUnder t above.length (descendMoments t.recorded limit budget above place n p) = [] := by
  have deeper : ∀ m ∈ descendMoments t.recorded limit budget above place n p,
      m = ⟨above, place, .descend n, p⟩ ∨ n :: above <:+ m.above := suffix_of_mem_descendMoments budget above place n p
  have silent : callsUnder t above.length [⟨above, place, .descend n, p⟩] = [] :=
    callsUnder_cons_of_silent rfl []
  -- of the moments of a descent, only the first one is under the nodes that are open when it begins
  generalize descendMoments t.recorded limit budget above place n p = ms at deeper
  induction ms with
  | nil => rfl
  | cons m ms ih =>
    obtain ⟨first, others⟩ := List.forall_mem_cons.mp deeper
    rw [← List.singleton_append, callsUnder_append, ih others, List.append_nil]
    rcases first with rfl | suffix
    · exact silent
    · refine callsUnder_eq_nil fun m' hm' => ?_
      rw [List.mem_singleton.mp hm']
      exact suffix.length_le

/-- The visit of a node makes one call under the nodes that are open when it begins: the one about the node. -/
private theorem callsUnder_visitMoments {limit budget : Nat} (above : List SharedNode) (place : Place)
    (n : SharedNode) (p : Progress (Logged σ)) :
    callsUnder t above.length
      (visitMoments above t.recorded (descendMoments t.recorded limit budget above) place n p) =
        [t.call n p.state.1] := by
  have first : callsUnder t above.length [⟨above, place, .visit (some n), p⟩] = [t.call n p.state.1] := by
    simp [callsUnder, Moment.call?]
  by_cases h : ∃ m, (t.recorded n p.state).answer = .ok (some m)
  · obtain ⟨m, hm⟩ := h
    rw [visitMoments_answered place hm, ← List.singleton_append, callsUnder_append, first,
      callsUnder_descendMoments, List.append_nil]
  · rw [visitMoments_alone place fun m hm => h ⟨m, hm⟩, first]

end Calls

/-! ### Walking over nodes -/

/-- The calls under a number of open nodes are about the given nodes if the computation succeeds. If it stops they are
about the first ones of them, and about one at least. -/
structure Walks (t : Transform σ) (opened : Nat) (ns : List SharedNode) (ms : List (Moment (Logged σ)))
    (result : EStateM.Result Halt (Progress (Logged σ)) α) : Prop where
  all : ∀ a q, result = .ok a q → (callsUnder t opened ms).map Call.node = ns
  first : ∀ e q, result = .error e q →
    (callsUnder t opened ms).map Call.node <+: ns ∧ (callsUnder t opened ms).map Call.node ≠ []

section Walks

variable {t : Transform σ} {opened : Nat} {ns : List SharedNode} {ms : List (Moment (Logged σ))}
  {p : Progress (Logged σ)}

theorem Walks.none {a : α} {q : Progress (Logged σ)} : Walks t opened [] [] (.ok a q) :=
  ⟨fun _ _ _ => rfl, nofun⟩

theorem Walks.one {n : SharedNode} (h : (callsUnder t opened ms).map Call.node = [n])
    (result : EStateM.Result Halt (Progress (Logged σ)) α) : Walks t opened [n] ms result :=
  ⟨fun _ _ _ => h, fun _ _ _ => ⟨h ▸ List.prefix_rfl, h ▸ List.cons_ne_nil n []⟩⟩

theorem Walks.bind {x : Run (Logged σ) α} {f : α → Run (Logged σ) β} {ns' : List SharedNode}
    {later : Progress (Logged σ) → List (Moment (Logged σ))} (hx : Walks t opened ns ms (x p))
    (hf : ∀ a q, x p = .ok a q → Walks t opened ns' (later q) (f a q)) :
    Walks t opened (ns ++ ns') (ms ++ following (x p) later) ((x >>= f) p) := by
  cases h : x p with
  | ok a q =>
    have whole := hx.all a q h
    have next := hf a q h
    have both : (callsUnder t opened (ms ++ later q)).map Call.node =
        ns ++ (callsUnder t opened (later q)).map Call.node := by
      rw [callsUnder_append, List.map_append, whole]
    rw [bind_of_ok h]
    show Walks t opened (ns ++ ns') (ms ++ later q) (f a q)
    refine ⟨fun b r hr => ?_, fun e r hr => ?_⟩
    · rw [both, next.all b r hr]
    · obtain ⟨start, some⟩ := next.first e r hr
      rw [both]
      exact ⟨(List.prefix_append_right_inj ns).mpr start, List.append_ne_nil_of_right_ne_nil ns some⟩
  | error e q =>
    obtain ⟨start, some⟩ := hx.first e q h
    have nothing : ms ++ following (.error e q : EStateM.Result Halt (Progress (Logged σ)) α) later = ms :=
      List.append_nil ms
    rw [bind_of_error h, nothing]
    exact ⟨nofun, fun _ _ _ => ⟨start.trans (List.prefix_append ns ns'), some⟩⟩

theorem walks_chronicle (t : Transform σ) (opened : Nat) :
    Chronicle fun {α : Type} ns (x : Run (Logged σ) α) listed => ∀ p, Walks t opened ns (listed p) (x p) where
  pure _ _ := .none
  bind hx hf p := (hx p).bind fun a q _ => hf a q

/-- What always returns does not stop a walk. -/
theorem Walks.bind_total {x : Run (Logged σ) α} {f : α → Run (Logged σ) β} (hx : Walks t opened ns ms (x p))
    (hf : ∀ a q, ∃ b r, f a q = .ok b r) : Walks t opened ns ms ((x >>= f) p) := by
  have both : Walks t opened (ns ++ []) (ms ++ following (x p) fun _ => []) ((x >>= f) p) := by
    refine hx.bind fun a q _ => ?_
    obtain ⟨b, r, hr⟩ := hf a q
    rw [hr]
    exact .none
  rwa [following_nil, List.append_nil, List.append_nil] at both

/-- A moment at which no node is visited may stand before the others. -/
theorem Walks.cons {m : Moment (Logged σ)} {result : EStateM.Result Halt (Progress (Logged σ)) α}
    (silent : m.call? t = Option.none) (h : Walks t opened ns ms result) : Walks t opened ns (m :: ms) result := by
  have same : callsUnder t opened (m :: ms) = callsUnder t opened ms := callsUnder_cons_of_silent silent ms
  exact ⟨fun a q hr => same ▸ h.all a q hr, fun e q hr => same ▸ h.first e q hr⟩

private theorem level_walks {visit : SharedNode → Run (Logged σ) (Option SharedNode)} {above : List SharedNode}
    {inside : Place → SharedNode → Progress (Logged σ) → List (Moment (Logged σ))}
    (hin : ∀ place n p, (callsUnder t opened (inside place n p)).map Call.node = [n]) (parent : Kind) :
    Chronicle.Level (fun {α : Type} ns (x : Run (Logged σ) α) listed => ∀ p, Walks t opened ns (listed p) (x p))
      visit above inside parent where
  element n p := .one (hin .element n p) _
  row place r visits p := by
    have items : Walks t opened r.items (itemMoments visit inside r.items p) (visitRowWith visit r p) := by
      refine (visits p).bind_total fun changed q => ?_
      cases changed with
      | none => exact ⟨_, q, rfl⟩
      | some items => exact ⟨_, _, rfl⟩
    exact items.cons rfl
  optional s n _ p := .one (hin (.slot s) n p) _
  required s n _ p := .one (hin (.slot s) n p) _

/-- A descent that opens a level walks over the children of its node. -/
private theorem descend_walks (limit budget : Nat) (above : List SharedNode) (place : Place) {n : SharedNode}
    (hn : n.kind.isTerminal = false) (p : Progress (Logged σ)) :
    Walks t (above.length + 1) n.children (descendMoments t.recorded limit (budget + 1) above place n p)
      (descend t.recorded limit (budget + 1) n p) := by
  rw [descendMoments, descend_inner t.recorded limit budget p hn, hn, if_neg Bool.false_ne_true]
  let visit := visitWith t.recorded (descend t.recorded limit budget)
  let inside := visitMoments (n :: above) t.recorded (descendMoments t.recorded limit budget (n :: above))
  have one (place' : Place) (c : SharedNode) (q : Progress (Logged σ)) :
      (callsUnder t (n :: above).length (inside place' c q)).map Call.node = [c] := by
    rw [callsUnder_visitMoments]
    rfl
  have visits : Walks t (n :: above).length n.fields.nodes
      (fieldMoments visit (n :: above) inside n.kind n.fields (p.deepen (limit - budget)))
      (visitFields visit n.kind n.fields (p.deepen (limit - budget))) :=
    (walks_chronicle t _).visitFields (level_walks one n.kind) n.fields _
  refine Walks.cons rfl (visits.bind_total fun fields q => ?_)
  obtain ⟨m, q', made, -⟩ := rebuild_returns n fields q
  exact ⟨m, q', made⟩

end Walks

/-- A descent below a terminal node makes no call and gives the node back.

The calls of a descent below another node are those of the visits among its moments. Those that are made while only
the node itself is open are about the children that are listed for it, one by one and in order, if the descent succeeds.
If it fails although the limit allows a level, they are about the first ones of the children, and there is one of them.

If all nodes are kept and the tree has no more levels than the limit allows, the calls are about all reached nodes below
the root, parents before children. These are found by going from each node that is not terminal to the children that
are listed for it. -/
theorem Runner.descend_walks_children (r : Runner) (region : Nat) (t : Transform σ) (n : SharedNode) (s : σ) :
    let ms := r.moments region t.recorded (.descend n) (s, [])
    let report := r.perform region t.recorded (.descend n) (s, [])
    n.listed = n.children ∧
    report.state.2.reverse = ms.filterMap (Moment.call? t) ∧
    (∀ m ∈ ms, m.above.length = 1 → m.above = [n]) ∧
    (n.kind.isTerminal = true → 0 < r.options.limit → report.outcome = .ok n ∧ report.state.2 = []) ∧
    (n.kind.isTerminal = false →
      (∀ m, report.outcome = .ok m → (callsUnder t 1 ms).map Call.node = n.listed) ∧
      (∀ e, report.outcome = .error e → 0 < r.options.limit →
        (callsUnder t 1 ms).map Call.node <+: n.listed ∧ (callsUnder t 1 ms).map Call.node ≠ [])) ∧
    ((∀ c, t.Keeps c) → n.levels ≤ r.options.limit → report.state.2.reverse.map Call.node = n.reached.tail) ∧
    ∀ m : SharedNode, m.reached = m :: if m.kind.isTerminal then [] else m.listed.flatMap Node.reached := by
  intro ms report
  let start : Progress (Logged σ) := .start region (Op.descend n).entry (s, [])
  have ends : report = r.conclude (Pass.descend t.recorded r.options.limit r.options.limit n start) :=
    r.perform_eq region t.recorded (.descend n) (s, [])
  have listed : ms = descendMoments t.recorded r.options.limit r.options.limit [] .root n start := rfl
  rw [n.listed_eq]
  refine ⟨rfl, r.calls_eq region t (.descend n) s, ?_, ?_, ?_, ?_, ?_⟩
  · intro m hm single
    rcases suffix_of_mem_descendMoments _ [] .root n start m hm with rfl | suffix
    · cases single
    · exact (suffix.eq_of_length single.symm).symm
  · intro hn room
    obtain ⟨budget, limit⟩ : ∃ k, r.options.limit = k + 1 := ⟨r.options.limit - 1, by omega⟩
    rw [ends, limit, descend_terminal t.recorded _ budget start hn]
    exact ⟨rfl, rfl⟩
  · intro hn
    have walks (room : 0 < r.options.limit) : Walks t 1 n.children ms
        (Pass.descend t.recorded r.options.limit r.options.limit n start) := by
      obtain ⟨budget, limit⟩ : ∃ k, r.options.limit = k + 1 := ⟨r.options.limit - 1, by omega⟩
      rw [listed, limit]
      exact descend_walks (budget + 1) budget [] .root hn start
    constructor
    · intro m h
      rw [ends, Runner.conclude_outcome] at h
      -- without a level the descent would have failed
      rcases Nat.eq_zero_or_pos r.options.limit with none | room
      · rw [none] at h
        cases h
      · exact (walks room).all m _ (outcome_eq_ok h)
    · intro e h room
      rw [ends, Runner.conclude_outcome] at h
      exact (walks room).first e _ (outcome_eq_error h)
  · exact fun keeps fits => (r.descend_kept region s fits fun c _ => keeps c).2.2
  · intro m
    rw [m.listed_eq, Node.reached_eq, Node.entered]
    split <;> rfl

/-- Of three leaves in a row the second one is exchanged for a row with a leaf, for which the limit has no level left.
The calls under the root are about the first two leaves, and none is about the third one. -/
theorem Runner.descend_walks_children_sheaf :
    let n := Sample.sheaf [⟨0, 0⟩, ⟨0, 1⟩, ⟨0, 2⟩] ⟨0, 3⟩
    let t : Transform Nat := Transform.swapping 1 (some (Sample.sheaf [⟨2, 0⟩] ⟨2, 1⟩))
    let runner : Runner := { options := { maxDepth := 2 } }
    let ms := runner.moments 1 t.recorded (.descend n) (0, [])
    let walked := (callsUnder t 1 ms).map Call.node
    walked = [Sample.leaf ⟨0, 0⟩, Sample.leaf ⟨0, 1⟩] ∧ n.children = walked ++ [Sample.leaf ⟨0, 2⟩] ∧
      walked <+: n.listed ∧ walked ≠ [] ∧
      (ms.filterMap (Moment.call? t)).map Call.node = walked ++ [Sample.leaf ⟨2, 0⟩] := by
  intro n t runner ms walked
  have calls : walked = [Sample.leaf ⟨0, 0⟩, Sample.leaf ⟨0, 1⟩] := rfl
  have stops := ((Runner.descend_walks_children runner 1 t n 0).2.2.2.2.1 rfl).2 (.failed (.tooDeep 2 .thisKeyword)) rfl
    (by decide)
  exact ⟨calls, by rw [calls]; rfl, stops.1, stops.2, rfl⟩

/-- A descent makes no call below 31 of the 93 kinds. -/
example : (Kind.all.filter Kind.isTerminal).length = 31 := by decide

end SharedTree.Pass
