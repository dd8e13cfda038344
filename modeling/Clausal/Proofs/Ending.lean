import Clausal.Proofs.Soundness
import Clausal.Proofs.StackGoals
import Clausal.Proofs.Termination

namespace Clausal

theorem Policy.refusal?_eq_none {policy : Policy} {limit : Nat} (hn : policy.maxDepth = some limit)
    {chain : GoalChain} {goal : Term} :
    policy.refusal? chain goal = none ↔ chain.length < limit := by
  unfold refusal?
  rw [hn]
  by_cases h : limit ≤ chain.length
  · simp [h]
  · simp [h, Nat.lt_of_not_le h]

theorem Policy.refusal?_eq_some {policy : Policy} {limit : Nat} (hn : policy.maxDepth = some limit)
    {chain : GoalChain} {goal : Term} {failure : Failure} :
    policy.refusal? chain goal = some failure ↔
      limit ≤ chain.length ∧ failure = .depthExceeded goal chain limit := by
  unfold refusal?
  rw [hn]
  by_cases h : limit ≤ chain.length
  · simp [h, eq_comm]
  · simp [h]

theorem Knowledge.Searches.graph {catalog : Catalog} {policy : Policy} {known : Knowledge}
    {goal : Term} (h : known.Searches policy goal) (hc : catalog.Indexed)
    (ha : Aligned [] known.ledger.get?) (hg : ProofGraph catalog [] known.ledger.get? known.table) :
    ProofGraph catalog (known.first catalog goal).stack (known.first catalog goal).ledger.get?
      (known.first catalog goal).table :=
  hg.push hc (ha.eq_none h.unresolved h.unfailed) first_get?

namespace Search

variable {catalog : Catalog} {policy : Policy} {s next : Search}

/-- What steps keep holds in all the states that a search goes through. -/
theorem of_mem_trace {P : Search → Prop}
    (running : ∀ s next, P s → s.step catalog policy = .running next → P next) {budget : Nat}
    {e : Search} (hs : P s) (he : e ∈ s.trace catalog policy budget) : P e := by
  induction budget generalizing s with
  | zero => cases he
  | succ budget ih =>
    rcases List.mem_cons.mp he with rfl | he
    · exact hs
    · cases hstep : s.step catalog policy with
      | finished outcome known => simp [hstep] at he
      | running next =>
        rw [hstep] at he
        exact ih (running s next hs hstep) he

/-- A frame is only started above a stack that the depth bound leaves room on. -/
theorem stack_length_running {limit : Nat} (hn : policy.maxDepth = some limit)
    (hle : s.stack.length ≤ limit) (hs : s.step catalog policy = .running next) :
    next.stack.length ≤ limit := by
  rcases running_cases hs with ⟨_, _, top, _, hst⟩ | ⟨t, r, goal, _, _, _, _, hadmitted, rfl⟩ |
    ⟨_, _, hcl⟩
  · have hsame : next.stack.length = s.stack.length := by
      rcases hst with hst | ⟨j, hst⟩ <;> rw [hst] <;> simp [stack]
    omega
  · have hroom := (Policy.refusal?_eq_none hn).mp hadmitted
    have hchain : s.chain.length = s.stack.length := List.length_map _
    have hnext : (push catalog { s.toKnowledge with ledger := s.ledger.miss } s.stack
        goal).stack.length = s.stack.length + 1 := stack_length _
    omega
  · obtain ⟨parent, hk, _⟩ := closeTop_running hcl
    have hkeep := s.keep_length (s.verdict policy)
    rw [hk, List.length_append, List.length_singleton] at hkeep
    rw [stack_length] at hle ⊢
    unfold depth at hle ⊢
    omega

/-- A search for a goal ends within a power of the catalog's work, to the number of frames that its
stack may have. -/
theorem run_first_isSome {P : Search → Prop} {room budget : Nat} {known : Knowledge} {goal : Term}
    (hc : catalog.Indexed) (aligned : ∀ s, P s → Aligned s.stack s.ledger.get?)
    (bounded : ∀ s, P s → s.stack.length ≤ room)
    (running : ∀ s next, P s → s.step catalog policy = .running next → P next)
    (hfirst : P (known.first catalog goal)) (hb : catalog.work ^ room ≤ budget) :
    ((known.first catalog goal).run catalog policy budget).isSome := by
  obtain ⟨D, rfl⟩ : ∃ D, room = D + 1 := by
    have hone : (known.first catalog goal).stack.length = 1 := stack_length _
    have hroom := bounded _ hfirst
    exact ⟨room - 1, by omega⟩
  have hbelow : ∀ s, P s → s.below.length ≤ D := by
    intro s hs
    have hle := bounded s hs
    rw [stack_length] at hle
    exact Nat.le_of_succ_le_succ hle
  refine run_isSome hc aligned hbelow running hfirst (Nat.lt_of_lt_of_le ?_ hb)
  have hwork : (Frame.start catalog 0 goal known.table.size).work < catalog.work :=
    Frame.work_start hc goal _
  have hpow : 0 < catalog.work ^ D := Nat.pow_pos (by omega)
  have hload : load catalog.work D ((known.first catalog goal).stack.map Frame.work) =
      (Frame.start catalog 0 goal known.table.size).work * catalog.work ^ D := by
    simp [load, burden, Knowledge.first, stack, push, ProofTable.reserve]
  rw [hload, Nat.pow_succ, Nat.mul_comm (catalog.work ^ D)]
  exact Nat.mul_lt_mul_of_pos_right hwork hpow

end Search

namespace Knowledge

variable {catalog : Catalog} {policy : Policy} {known : Knowledge} {goal : Term} {budget : Nat}

theorem Searches.stack_length_le {limit : Nat} (h : known.Searches policy goal)
    (hn : policy.maxDepth = some limit) : (known.first catalog goal).stack.length ≤ limit := by
  have hroom := (Policy.refusal?_eq_none hn).mp h.admitted
  have hone : (known.first catalog goal).stack.length = 1 := Search.stack_length _
  have hnil : ([] : GoalChain).length = 0 := rfl
  omega

/-- Under a depth bound, a call ends whatever goals there are to reach. -/
theorem prove_isSome_of_maxDepth {limit : Nat} (hc : catalog.Indexed)
    (ha : Aligned [] known.ledger.get?) (hn : policy.maxDepth = some limit)
    (hb : catalog.work ^ limit ≤ budget) : (known.prove catalog policy budget goal).isSome := by
  by_cases hsearches : known.Searches policy goal
  · rw [hsearches.prove]
    exact Search.run_first_isSome
      (P := fun s => Aligned s.stack s.ledger.get? ∧ s.stack.length ≤ limit) hc
      (fun s hs => hs.1) (fun s hs => hs.2)
      (fun s next hs hstep => ⟨Search.aligned_running hs.1 hstep,
        Search.stack_length_running hn hs.2 hstep⟩)
      ⟨hsearches.aligned ha, hsearches.stack_length_le hn⟩ hb
  · exact isSome_of_not_searches hsearches

/-- A call ends when finitely many goals can be reached from the one asked for. -/
theorem prove_isSome_of_finite (hc : catalog.Indexed) (ha : Aligned [] known.ledger.get?)
    (hg : ProofGraph catalog [] known.ledger.get? known.table)
    (hfin : {x | Relation.ReflTransGen catalog.Needs goal x}.Finite)
    (hb : catalog.work ^ hfin.toFinset.card ≤ budget) :
    (known.prove catalog policy budget goal).isSome := by
  by_cases hsearches : known.Searches policy goal
  · rw [hsearches.prove]
    refine Search.run_first_isSome (P := fun s => Aligned s.stack s.ledger.get? ∧
      ProofGraph catalog s.stack s.ledger.get? s.table ∧ s.root? = some goal) hc
      (fun s hs => hs.1) (fun s hs => hs.1.length_le hs.2.1.numbered.sound hs.2.2 hfin) ?_
      ⟨hsearches.aligned ha, hsearches.graph hc ha hg, rfl⟩ hb
    rintro s next ⟨hs, hsg, hroot⟩ hstep
    exact ⟨Search.aligned_running hs hstep,
      (proofGraph_invariant policy hc).running [] hs hsg hstep,
      (Search.root?_running hs hstep).trans hroot⟩
  · exact isSome_of_not_searches hsearches

end Knowledge

theorem Prover.compile_isSome {V : Type} {s : Prover V} {budget : Nat} {goal : Term}
    (h : (s.known.prove s.catalog s.policy budget goal).isSome) :
    (s.compile budget goal).isSome := by
  unfold compile
  obtain ⟨⟨outcome, known⟩, hp⟩ := Option.isSome_iff_exists.mp h
  rw [hp]
  cases outcome <;> rfl

/-- Every call ends. Under a depth bound no stack has more frames than the bound allows, and a
power of the catalog's work limits the steps; without one, the number of goals that can be reached
takes the place of the bound. A search that a call makes ends by closing the frame of the goal asked
for, with no frame left below it. -/
theorem calls_end {clauses : List (String × Clause)} {catalog : Catalog} {policy : Policy}
    {V : Type} {past : List Search} {s : Prover V} {goal : Term}
    (hb : Catalog.build clauses = .ok catalog) (hs : Session catalog policy past s) :
    (∀ limit, policy.maxDepth = some limit →
      (∀ budget, catalog.work ^ limit ≤ budget → (s.compile budget goal).isSome) ∧
      ∀ budget, ∀ e ∈ s.known.trace catalog policy budget goal, e.stack.length ≤ limit) ∧
    (∀ hfin : {x | Relation.ReflTransGen catalog.Needs goal x}.Finite, ∀ budget,
      catalog.work ^ hfin.toFinset.card ≤ budget → (s.compile budget goal).isSome) ∧
    ∀ budget answer next, s.compile budget goal = some (answer, next) →
      s.known.trace catalog policy budget goal = [] ∨
        ∃ before last, s.known.trace catalog policy budget goal = before ++ [last] ∧
          last.below = [] ∧ last.Closing ∧ last.top.goal = goal ∧
            answer = (last.verdict policy).map (Plan.mk next.known.table) := by
  have hc := Catalog.build_indexed hb
  obtain ⟨hcatalog, hpolicy, hlearnt⟩ := hs.learnt
  obtain ⟨ha, hg⟩ := (proofGraph_invariant policy hc).kept.learnt hlearnt
  refine ⟨fun limit hn => ⟨fun budget hle => ?_, fun budget e he => ?_⟩,
    fun hfin budget hle => ?_, fun budget answer next h => ?_⟩
  · apply Prover.compile_isSome
    rw [hcatalog, hpolicy]
    exact Knowledge.prove_isSome_of_maxDepth hc ha hn hle
  · have hsearches := Knowledge.searches_of_mem_trace he
    rw [hsearches.trace] at he
    exact Search.of_mem_trace (P := fun s => s.stack.length ≤ limit)
      (fun s next hs hstep => Search.stack_length_running hn hs hstep)
      (hsearches.stack_length_le hn) he
  · apply Prover.compile_isSome
    rw [hcatalog, hpolicy]
    exact Knowledge.prove_isSome_of_finite hc ha hg hfin hle
  · obtain ⟨outcome, known, hp, rfl, rfl⟩ := Prover.compile_outcome h
    rw [hcatalog, hpolicy] at hp
    rcases s.known.searches_or catalog policy goal with hsearches | hat
    · rw [hsearches.prove] at hp
      rw [hsearches.trace]
      obtain ⟨before, last, htrace, hbelow, hclosing, hgoal, rfl, _⟩ :=
        Knowledge.first_last ha hsearches.unresolved hsearches.unfailed hp
      exact .inr ⟨before, last, htrace, hbelow, hclosing, hgoal, rfl⟩
    · exact .inl (hat budget).1

/-- One rule that asks for ever larger goals. -/
def tower : List (String × Clause) :=
  [("p", ⟨"grow", .app "Grow" [.var ⟨0, "a"⟩],
    [⟨.app "Grow" [.app "List" [.var ⟨0, "a"⟩]], false⟩]⟩)]

def towerCatalog : Catalog where
  rules := [⟨0, "p::grow", .app "Grow" [.var ⟨0, "a"⟩],
    [⟨.app "Grow" [.app "List" [.var ⟨0, "a"⟩]], false⟩]⟩]
  index := [("Grow", [0])]
  arities := [("Grow", 1), ("List", 1)]

theorem build_tower : Catalog.build tower = .ok towerCatalog := by decide

theorem tower_ends : ∃ answer next,
    (Prover.start towerCatalog ⟨some 3, .strict⟩ : Prover Unit).compile 125
      (.app "Grow" [.const "Int"]) = some (answer, next) := by
  have hs : Session towerCatalog ⟨some 3, .strict⟩ [] (.start towerCatalog ⟨some 3, .strict⟩) :=
    .start (V := Unit)
  have hends := @calls_end _ _ _ _ _ _ (.app "Grow" [.const "Int"]) build_tower hs
  obtain ⟨hsome, _⟩ := hends.1 3 rfl
  obtain ⟨⟨answer, next⟩, h⟩ := Option.isSome_iff_exists.mp (hsome 125 (by decide))
  exact ⟨answer, next, h⟩

end Clausal
