import SharedTree.Proofs.Balance
import SharedTree.Proofs.Becoming

/-!
# Passes that go by headers

The header of a node is the node without its handle and its children: span, flags, kind and payload. A pass keeps the
headers of the nodes that it makes anew. So if a transform decides by the header alone what to do with a node, and
exchanges nodes only for nodes that it keeps, such as terminal ones, then it keeps whatever a pass leaves, and a second
pass changes nothing.

* `Transform.Follows` says that a transform decides by headers; `Verdict` is what it can decide.
* `Descends.header`, `Descends.kept`: a descent keeps the header of its node, and the transform keeps all that is
  reached below.
* `Runner.descend_idempotent` is the statement for two runs, one after the other.
-/

namespace SharedTree

/-- What there is to know of a node apart from its identity and its children. -/
structure Header where
  span : Span
  flags : Flags
  kind : Kind
  payload : Payload kind.attributes

def Node.header {η : Type} (n : Node η) : Header := ⟨n.span, n.flags, n.kind, n.payload⟩

namespace Pass

variable {σ : Type}

/-- What is decided of a node. -/
inductive Verdict where
  | keep
  | remove
  | exchange
deriving DecidableEq, Repr

/-- The transform does in every state what the verdict on the header of a node says. A node is exchanged only for one
that is kept, be it terminal or not. -/
structure Transform.Follows (t : Transform σ) (verdict : Header → Verdict) : Prop where
  keep {n : SharedNode} (h : verdict n.header = .keep) (s : σ) : (t n s).answer = .ok (some n)
  remove {n : SharedNode} (h : verdict n.header = .remove) (s : σ) : (t n s).answer = .ok none
  exchange {n : SharedNode} (h : verdict n.header = .exchange) (s : σ) :
    ∃ m, (t n s).answer = .ok (some m) ∧ verdict m.header = .keep

section Descend

variable {region : Nat} {t : Transform σ} {limit budget : Nat} {n m : SharedNode}

/-- A descent keeps the header of its node. -/
theorem Descends.header (h : Descends region t limit budget n m) (ha : n.Avoids region) : m.header = n.header := by
  cases hn : n.kind.isTerminal with
  | true => rw [(h.terminal hn).2]
  | false =>
    obtain ⟨less, g, fs, -, rfl, -⟩ := h.inner ha hn
    rfl

variable {verdict : Header → Verdict} (follows : t.Follows verdict)

include follows

/-- The transform keeps a node that is left by a visit, which the descent has made of the answer. -/
private theorem Visits.kept (h : Visits region t limit budget n (some m)) :
    t.Keeps m ∧ ∃ k : SharedNode, k.Avoids region ∧ Descends region t limit budget k m := by
  cases h with
  | @answered k _ s h avoid below =>
    refine ⟨?_, k, avoid, below⟩
    have header := below.header avoid
    cases decided : verdict n.header with
    | keep =>
      -- the answer is the node itself, and what is left of it has the same header
      rw [follows.keep decided s] at h
      cases h
      exact follows.keep (header ▸ decided)
    | remove =>
      rw [follows.remove decided s] at h
      cases h
    | exchange =>
      obtain ⟨k', answer, stays⟩ := follows.exchange decided s
      rw [answer] at h
      cases h
      exact follows.keep (header ▸ stays)

/-- The transform keeps all nodes that are reached below the node that comes out of a descent. -/
theorem Descends.kept (h : Descends region t limit budget n m) (ha : n.Avoids region) :
    ∀ c ∈ m.entered.flatMap Node.reached, t.Keeps c := by
  induction budget generalizing n m with
  | zero =>
    obtain ⟨p, q, -, run, -⟩ := h
    cases run
  | succ budget ih =>
    cases hn : n.kind.isTerminal with
    | true =>
      rw [(h.terminal hn).2, Node.entered_terminal hn]
      exact fun c hc => absurd hc List.not_mem_nil
    | false =>
      obtain ⟨less, g, fs, budgets, rfl, becomes⟩ := h.inner ha hn
      obtain rfl := Nat.succ.inj budgets
      intro c hc
      have inner : (Node.mk g n.span n.flags n.kind n.payload fs).kind.isTerminal = false := hn
      rw [Node.entered_inner inner] at hc
      obtain ⟨child, hchild, hc⟩ := List.mem_flatMap.mp hc
      obtain ⟨k, visited⟩ := becomes.exists_of_mem hchild
      obtain ⟨keeps, k', avoid, below⟩ := visited.kept follows
      rw [Node.reached_eq] at hc
      rcases List.mem_cons.mp hc with rfl | hc
      · exact keeps
      · exact ih below avoid c hc

end Descend

/-- A pass that goes by headers is idempotent. If it succeeds, the transform keeps all nodes that are reached below the
root of what comes back. A second pass over this tree under the same limit gives back the very tree and counts no
change. -/
theorem Runner.descend_idempotent (r : Runner) (region : Nat) {t : Transform σ} {verdict : Header → Verdict}
    (follows : t.Follows verdict) (n : SharedNode) (s : σ) (orderly : r.Orderly region t (.descend n) s)
    {m : SharedNode} (h : (r.descend? region t n s).outcome = .ok m) :
    (∀ c ∈ m.reached.tail, t.Keeps c) ∧
    ∀ (r' : Runner) (region' : Nat) (s' : σ), r'.options.limit = r.options.limit →
      let again := r'.descend? region' t m s'
      again.outcome = .ok m ∧
        again.stats.replaced = 0 ∧ again.stats.removed = 0 ∧ again.stats.rebuilt = 0 := by
  have kept : ∀ c ∈ m.reached.tail, t.Keeps c := by
    rw [Node.tail_reached]
    exact (orderly.descends h).kept follows orderly.avoids
  refine ⟨kept, fun r' region' s' same => ?_⟩
  have fits : m.levels ≤ r'.options.limit := same ▸ (orderly.counts h).2.2
  exact r'.descend_returns region' s' fits kept

/-! ### A twig and a leaf in a row -/

/-- Does with each node what the verdict on its header says, with one node for which others are exchanged. -/
def Transform.obeying (verdict : Header → Verdict) (m : SharedNode) : Transform σ := .ofFunction fun n =>
  match verdict n.header with
  | .keep => some n
  | .remove => none
  | .exchange => some m

private theorem Transform.obeying_follows {verdict : Header → Verdict} {m : SharedNode}
    (kept : verdict m.header = .keep) : (Transform.obeying verdict m : Transform σ).Follows verdict where
  keep h s := by simp only [obeying, ofFunction, h]
  remove h s := by simp only [obeying, ofFunction, h]
  exchange h s := ⟨m, by simp only [obeying, ofFunction, h], kept⟩

/-- In a row of a twig and a leaf, the leaf of the twig is exchanged and the other one is removed. The transform keeps
the two nodes below the row that comes back. A second pass visits them, gives back the very row and counts no change. -/
theorem Runner.descend_idempotent_twig :
    let null : SharedNode := .mk ⟨2, 0⟩ {} {} .nullKeyword .nil .nil
    let other : SharedNode := .mk ⟨0, 2⟩ {} {} .superKeyword .nil .nil
    let verdict (h : Header) : Verdict :=
      match h.kind with
      | .thisKeyword => .exchange
      | .superKeyword => .remove
      | _ => .keep
    let t : Transform Unit := .obeying verdict null
    let row (h : Handle) (items : List SharedNode) : SharedNode :=
      .mk h {} {} .arrayLiteralExpression .nil (.cons (.row ⟨⟨h.region, 0⟩, {}, items⟩) .nil)
    let n := row ⟨0, 3⟩ [Sample.twig, other]
    let twig : SharedNode := .mk ⟨1, 0⟩ {} {} .expressionStatement .nil (.cons (.one null) .nil)
    let m := row ⟨1, 1⟩ [twig]
    let first := Sample.runner.descend? 1 t n ()
    let again := Sample.runner.descend? 3 t m ()
    first.outcome = .ok m ∧ first.stats = { visited := 3, replaced := 1, removed := 1, rebuilt := 2, deepest := 3 } ∧
      (∀ c ∈ [twig, null], t.Keeps c) ∧ again.outcome = .ok m ∧ again.stats.visited = 2 ∧
        again.stats.replaced = 0 ∧ again.stats.removed = 0 ∧ again.stats.rebuilt = 0 := by
  intro null other verdict t row n twig m first again
  have orderly : Sample.runner.Orderly 1 t (.descend n) () := by
    refine ⟨show n.Avoids 1 by decide, fun c hc => ?_⟩
    replace hc : c ∈ [t.call other (), t.call (Sample.leaf ⟨0, 0⟩) (), t.call Sample.twig ()] := hc
    simp only [List.mem_cons, List.not_mem_nil, or_false] at hc
    rcases hc with rfl | rfl | rfl
    · exact .removed rfl
    · exact .replaced (m := null) rfl (by decide) rfl
    · exact .kept rfl (by decide)
  have made : first.outcome = .ok m := rfl
  have entered : m.entered = [twig] ∧ twig.entered = [null] ∧ null.entered = [] := ⟨rfl, rfl, rfl⟩
  have reached : m.reached.tail = [twig, null] := by
    simp only [Node.reached_eq, entered, List.flatMap_cons, List.flatMap_nil, List.append_nil, List.tail_cons]
  obtain ⟨kept, second⟩ := Runner.descend_idempotent Sample.runner 1 (Transform.obeying_follows rfl) n () orderly made
  rw [reached] at kept
  obtain ⟨returned, unchanged⟩ := second Sample.runner 3 () rfl
  exact ⟨made, rfl, kept, returned, rfl, unchanged⟩

end Pass

end SharedTree
