import Clausal.Proofs.Standing

namespace Clausal

/-- Every edge of a proof that is final leads to the final proof of the edge's goal. -/
def SelfContained (states : States) : Prop :=
  ∀ g p, states g = some (.resolved p) → ∀ e ∈ p.edges,
    ∃ q, states e.goal = some (.resolved q) ∧ q.id = e.link.target

section

variable {catalog : Catalog} {policy : Policy} {s : Search}

theorem SelfContained.push {states states' : States} {goal : Term} {n : Nat} {id : ProofId}
    (h : SelfContained states) (hg : states goal = none)
    (hs : ∀ g, states' g = if g = goal then some (.inProgress n id) else states g) :
    SelfContained states' := by
  intro g p hp e he
  rw [hs] at hp
  split at hp
  · cases hp
  · obtain ⟨q, hq, hid⟩ := h g p hp e he
    refine ⟨q, ?_, hid⟩
    rw [hs, if_neg, hq]
    intro heq
    rw [heq, hg] at hq
    cases hq

namespace Search

/-- Where the top frame rests on no frame below it, an edge that rests on nothing below it either
leads to a final proof once the frame has ended. -/
theorem resolved_of_backed (ha : Aligned s.stack s.ledger.get?) (hc : ¬s.top.IsCut)
    (hlow : s.below.length ≤ s.top.low) {within : Nat → Prop} {e : Edge}
    (hb : e.Backed s.ledger.get? within) (hs : s.Survives (s.verdict policy) e)
    (hwithin : ∀ k, within k → s.below.length ≤ k) :
    ∃ q, s.closed policy e.goal = some (.resolved q) ∧ q.id = e.link.target := by
  have ho : (s.verdict policy).isDepthExceeded = false := not_verdict_isDepthExceeded hc
  have hkept : e.Backed (s.keep (s.verdict policy)).1.get? fun _ => False :=
    backed_keep ha hc ho hb hs (fun k hk hlt => absurd (hwithin k hk) (Nat.not_le_of_lt hlt))
      (fun _ hlt => absurd hlow (Nat.not_le_of_lt hlt))
  cases hkept with
  | @resolved q hq hid => exact ⟨q, hq, hid⟩
  | provisional _ _ hn => exact hn.elim
  | inProgress _ _ hn => exact hn.elim

/-- A frame that ends without being cut short leaves the final proofs self-contained: those that
become final do so together with all that they lead to. -/
theorem selfContained_closed (ha : Aligned s.stack s.ledger.get?)
    (hg : ProofGraph catalog s.stack s.ledger.get? s.table) (hs : s.Closing) (hc : ¬s.top.IsCut)
    (h : SelfContained s.ledger.get?) : SelfContained (s.closed policy) := by
  have ho : (s.verdict policy).isDepthExceeded = false := not_verdict_isDepthExceeded hc
  intro g p hp e he
  by_cases hgoal : g = s.top.goal
  · -- The frame's own proof: its edges were pending, and the frame rests on itself alone.
    rw [hgoal, closed, keep_top ho] at hp
    split at hp
    · cases hp
    next hlow =>
      have hv : s.verdict policy = .ok p := by
        cases hv : s.verdict policy with
        | error f =>
          rw [hv] at hp
          cases hp
        | ok q =>
          rw [hv] at hp
          cases hp
          rfl
      obtain ⟨_, _, _, hpending⟩ := verdict_ok (hg.numbered.sound _ s.top getElem?_concat_top) hv
      have hb := hg.warranted.pending _ s.top e getElem?_concat_top (not_cutFrom_top hc)
        (hpending e he)
      refine resolved_of_backed ha hc (Nat.le_of_not_lt hlow) hb ?_ ?_
      · intro f hf
        cases hv.symm.trans hf
      · rintro k ⟨hk, _⟩
        rw [reach_top hs.1] at hk
        omega
  · rw [closed, keep_states ha hc ho hgoal] at hp
    obtain ⟨state, hst, hcl⟩ := Option.bind_eq_some_iff.mp hp
    rcases GoalState.close?_resolved hcl with rfl | ⟨chain, rfl, hlow⟩
    · have hold : s.ledger.get? g = some (.resolved p) := by
        rcases spread_cases ho g with hsame | ⟨_, _, _, _, _, _, _, _, _, _, hspread⟩
        · exact hsame.symm.trans hst
        · cases hst.symm.trans hspread
      obtain ⟨q, hq, hid⟩ := h g p hold e he
      have hcase : s.Discards e.goal ∧ s.closed policy e.goal = none ∨
          ¬s.Discards e.goal ∧ s.closed policy e.goal = some (.resolved q) :=
        closed_resolved ha hs hq
      rcases hcase with ⟨hd, _⟩ | ⟨_, hkept⟩
      · exact absurd hd.cut hc
      · exact ⟨q, hkept, hid⟩
    · -- A success that rested on the frame: what it leads to rested on the frame as well.
      obtain ⟨hold, hsurvives⟩ := survives_of_spread ha ho hst
      obtain ⟨_, _, hb⟩ := hg.warranted.provisional g _ p chain hold
      exact resolved_of_backed ha hc (Nat.le_of_not_lt hlow) (hb e he) (hsurvives e he)
        fun k hk => (le_of_covers_top hs.1 hk).elim id (le_trans (Nat.le_of_not_lt hlow))

end Search

/-- As long as no frame is cut short, final proofs are self-contained. -/
theorem selfContained_invariant (policy : Policy) (hc : catalog.Indexed) : Invariant catalog policy
    fun past frames states table => ProofGraph catalog frames states table ∧
      ((∀ e ∈ past, ¬e.top.IsCut) → SelfContained states) := by
  refine (proofGraph_invariant policy hc).and
    (J := fun past states => (∀ e ∈ past, ¬e.top.IsCut) → SelfContained states) ?_ ?_ ?_ ?_ ?_
  · intro past _ g p hp
    cases hp
  · exact fun past s states h huncut => h fun e he => huncut e (List.mem_append_left _ he)
  · exact fun past states states' goal n id h hg hs huncut => (h huncut).push hg hs
  · intro past s ha hg hs hcut h huncut
    exact Search.selfContained_closed ha hg hs hcut
      (h fun e he => huncut e (List.mem_append_left _ he))
  · intro past s ha hg hs hcut h huncut
    exact absurd hcut (huncut s (List.mem_append_right _ (List.mem_singleton_self s)))

namespace Knowledge

variable {known next : Knowledge} {budget : Nat} {goal : Term} {outcome : Outcome}

/-- A call that does not fail for its depth cuts no frame short. -/
theorem uncut_of_prove (ha : Aligned [] known.ledger.get?)
    (h : known.prove catalog policy budget goal = some (outcome, next))
    (ho : outcome.isDepthExceeded = false) :
    ∀ e ∈ known.trace catalog policy budget goal, ¬e.top.IsCut := by
  intro e he hcut
  have hsearches := searches_of_mem_trace he
  rw [hsearches.trace] at he
  rw [hsearches.prove] at h
  have hbegin : Course catalog policy (.idle known) [] (.searching (known.first catalog goal)) :=
    .begin .rest hsearches
  obtain ⟨_, _, _, _, hrun⟩ := hbegin.through he
  have hal : Aligned e.stack e.ledger.get? :=
    Search.of_mem_trace (P := fun s => Aligned s.stack s.ledger.get?)
      (fun s next hs hstep => Search.aligned_running hs hstep) (hsearches.aligned ha) he
  rw [Search.run_of_cutFrom hal (hcut.cutFrom (Nat.zero_le _)) (hrun _ h)] at ho
  cases ho

theorem selfContained_prove (hc : catalog.Indexed) (ha : Aligned [] known.ledger.get?)
    (hg : ProofGraph catalog [] known.ledger.get? known.table)
    (hs : SelfContained known.ledger.get?)
    (h : known.prove catalog policy budget goal = some (outcome, next))
    (ho : outcome.isDepthExceeded = false) : SelfContained next.ledger.get? := by
  have hkept := (selfContained_invariant policy hc).kept.prove []
    (show Aligned [] known.ledger.get? ∧ _ from ⟨ha, hg, fun _ => hs⟩) h
  exact hkept.2.2 (uncut_of_prove ha h ho)

end Knowledge

end

variable {catalog : Catalog} {policy : Policy} {V : Type}

/-- The call is not answered by a failure for its depth. -/
def InDepth {α : Type} (answer : Except Failure α) : Prop :=
  ∀ f, answer = .error f → f.isDepthExceeded = false

/-- The states of a prover between calls none of which, since its start or its last reset, has
failed for its depth. -/
inductive UncutSession (catalog : Catalog) (policy : Policy) : List Search → Prover V → Prop
  | start : UncutSession catalog policy [] (Prover.start catalog policy)
  | compile {past s budget goal answer next} (h : UncutSession catalog policy past s)
      (hc : s.compile budget goal = some (answer, next)) (hd : InDepth answer) :
      UncutSession catalog policy (past ++ s.known.trace catalog policy budget goal) next
  | resolve {past s budget goal answer next} {S : Type} {handles : RuleId → Handle V S}
      {w w' : Workshop V S} (h : UncutSession catalog policy past s)
      (hr : s.resolve handles budget goal w = some (answer, next, w')) (hd : InDepth answer) :
      UncutSession catalog policy (past ++ s.known.trace catalog policy budget goal) next
  | resolveAs {past s budget goal} {S T : Type} {shape : Shape V T} {handles : RuleId → Handle V S}
      {w w' : Workshop V S} {answer : Except Failure T} {next}
      (h : UncutSession catalog policy past s)
      (hr : s.resolveAs shape handles budget goal w = some (answer, next, w'))
      (hd : InDepth answer) :
      UncutSession catalog policy (past ++ s.known.trace catalog policy budget goal) next
  | reset {past s} (h : Session catalog policy past s) : UncutSession catalog policy past s.reset

theorem UncutSession.session {past : List Search} {s : Prover V}
    (h : UncutSession catalog policy past s) : Session catalog policy past s := by
  induction h with
  | start => exact .start
  | compile _ hc _ ih => exact .compile ih hc
  | resolve _ hr _ ih => exact .resolve ih hr
  | resolveAs _ hr _ ih => exact .resolveAs ih hr
  | reset h => exact .reset h

/-- A call for a value that does not fail for its depth finds a proof, or fails for another
reason. -/
theorem Prover.Resolution.inDepth {S : Type} {s next : Prover V} {handles : RuleId → Handle V S}
    {budget : Nat} {goal : Term} {w w' : Workshop V S} {answer : Except Failure V}
    (h : Resolution s handles budget goal w answer next w') (hd : InDepth answer) :
    ∃ plan mid, s.compile budget goal = some (plan, mid) ∧ InDepth plan ∧
      next.known = mid.known := by
  have found : ∀ plan : Plan, InDepth (.ok plan : Except Failure Plan) := by
    intro plan f hf
    cases hf
  cases h with
  | @failed f mid hc =>
    refine ⟨_, _, hc, ?_, rfl⟩
    rintro f' hf
    cases hf
    exact hd _ rfl
  | recalled hc _ => exact ⟨_, _, hc, found _, rfl⟩
  | broken hc _ _ => exact ⟨_, _, hc, found _, rfl⟩
  | built hc _ _ => exact ⟨_, _, hc, found _, rfl⟩

theorem Prover.inDepth_resolveAs {S T : Type} {s next : Prover V} {shape : Shape V T}
    {handles : RuleId → Handle V S} {budget : Nat} {goal : Term} {w w' : Workshop V S}
    {answer : Except Failure T}
    (h : s.resolveAs shape handles budget goal w = some (answer, next, w'))
    (hd : InDepth answer) :
    ∃ value, s.resolve handles budget goal w = some (value, next, w') ∧ InDepth value := by
  unfold resolveAs at h
  split at h
  · cases h
  next f mid w₁ hr =>
    cases h
    refine ⟨_, hr, ?_⟩
    rintro f' hf
    cases hf
    exact hd _ rfl
  next v mid w₁ hr =>
    cases h
    refine ⟨_, hr, ?_⟩
    rintro f' hf
    cases hf

theorem UncutSession.selfContained (hi : catalog.Indexed) {past : List Search} {s : Prover V}
    (h : UncutSession catalog policy past s) : SelfContained s.known.ledger.get? := by
  have compiled : ∀ {past : List Search} {s mid : Prover V} {budget goal plan},
      UncutSession catalog policy past s → SelfContained s.known.ledger.get? →
      s.compile budget goal = some (plan, mid) → InDepth plan →
      SelfContained mid.known.ledger.get? := by
    intro past s mid budget goal plan hs hself hc hd
    obtain ⟨hcatalog, hpolicy, hlearnt⟩ := hs.session.learnt
    obtain ⟨ha, hg⟩ := (proofGraph_invariant policy hi).kept.learnt hlearnt
    obtain ⟨outcome, known, hp, rfl, rfl⟩ := Prover.compile_outcome hc
    rw [hcatalog, hpolicy] at hp
    refine Knowledge.selfContained_prove hi ha hg hself hp ?_
    cases outcome with
    | ok p => rfl
    | error f => exact hd f rfl
  induction h with
  | start =>
    intro g p hp
    cases hp
  | compile h hc hd ih => exact compiled h ih hc hd
  | resolve h hr hd ih =>
    obtain ⟨plan, mid, hc, hd', hknown⟩ := (Prover.resolution hr).inDepth hd
    rw [hknown]
    exact compiled h ih hc hd'
  | resolveAs h hr hd ih =>
    obtain ⟨value, hv, hd⟩ := Prover.inDepth_resolveAs hr hd
    obtain ⟨plan, mid, hc, hd', hknown⟩ := (Prover.resolution hv).inDepth hd
    rw [hknown]
    exact compiled h ih hc hd'
  | reset h =>
    intro g p hp
    cases hp

/-- Until a call fails for its depth, what is resolved is closed under sub-proofs: a resolved proof
is for its very goal, and each of its edges leads to the proof that its goal is resolved by. -/
theorem resolved_closed_under_edges {clauses : List (String × Clause)} {past : List Search}
    {s : Prover V} (hb : Catalog.build clauses = .ok catalog)
    (hs : UncutSession catalog policy past s) {g : Term} {p : Proof}
    (hp : s.known.ledger.get? g = some (.resolved p)) :
    p.goal = g ∧ ∀ e ∈ p.edges, ∃ q, s.known.ledger.get? e.goal = some (.resolved q) ∧
      s.known.table.get? e.link.target = some q ∧ q.goal = e.goal := by
  have hi := Catalog.build_indexed hb
  obtain ⟨_, hg⟩ := (proofGraph_invariant policy hi).kept.learnt hs.session.learnt.2.2
  refine ⟨(hg.warranted.resolved g p hp).1, fun e he => ?_⟩
  obtain ⟨q, hq, hid⟩ := hs.selfContained hi g p hp e he
  obtain ⟨hgoal, hrecorded, _⟩ := hg.warranted.resolved e.goal q hq
  exact ⟨q, hq, hid ▸ hrecorded, hgoal⟩

theorem knot_closed_under_edges : ∃ plan next,
    (Prover.start knotCatalog Policy.default : Prover Unit).compile 9 (.const "Edge") =
      some (.ok plan, next) ∧ ∀ e ∈ plan.proof.edges, ∃ q,
        next.known.ledger.get? e.goal = some (.resolved q) ∧
        next.known.table.get? e.link.target = some q ∧ q.goal = e.goal := by
  obtain ⟨plan, next, hc⟩ := knot_compiles (V := Unit)
  have hs : UncutSession knotCatalog Policy.default [] (Prover.start knotCatalog Policy.default) :=
    .start (V := Unit)
  have hnext := hs.compile hc (by rintro f hf; cases hf)
  have ha := ((proofGraph_invariant Policy.default (Catalog.build_indexed build_knot)).kept.learnt
    hs.session.learnt.2.2).1
  obtain ⟨_, hresolved⟩ := Prover.compile_resolved ha hc
  exact ⟨plan, next, hc, (resolved_closed_under_edges build_knot hnext hresolved).2⟩

end Clausal
