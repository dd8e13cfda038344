import Clausal.Proofs.Grounds

namespace Clausal

/-- The state of a goal settles on a proof by another rule. -/
def Prefers : GoalState → Rule → Prop
  | .resolved p, r => r.id ≠ p.rule
  | .provisional _ (.ok p) _, r => r.id ≠ p.rule
  | _, _ => False

/-- A goal whose search is not over, or failed for the time being. -/
def Unsettled (states : States) (goal : Term) : Prop :=
  (∃ j id, states goal = some (.inProgress j id)) ∨
    ∃ k f chain, states goal = some (.provisional k (.error f) chain)

/-- A rule proves a goal by recorded proofs that do not lead back to the goal. -/
def Rule.Suffices (r : Rule) (states : States) (table : ProofTable) (goal : Term) : Prop :=
  ∃ subst, unify goal r.head = .ok subst ∧ ∀ q ∈ r.body, ∃ x, subst.apply q.pattern = .ok x ∧
    ∃ p, states x = some (.resolved p) ∧
      ∀ d, Relation.ReflTransGen table.Leads p d → d.goal ≠ goal

/-- A goal is resolved by one rule though another proves it as well. -/
def Rivalled (states : States) (table : ProofTable) (goal : Term) (r : Rule) : Prop :=
  (∃ p, states goal = some (.resolved p) ∧ r.id ≠ p.rule) ∧ r.Suffices states table goal

/-- Without a tie-break, a frame with a proof has met one rule alone. -/
theorem Frame.outcome_strict {f : Frame} {policy : Policy} {chain : GoalChain} {p : Proof}
    (hstrict : policy.tieBreak = .strict) (h : f.outcome policy chain = .ok p) :
    ∃ w, f.successes = [w] ∧ p = f.proofBy w := by
  rcases f.outcome_cases policy chain with ⟨c, _, _, ho⟩ | ⟨_, _, ho⟩ | ⟨_, _, _, ho⟩ | ⟨_, w, hw, ho⟩
  · cases ho.symm.trans h
  · cases ho.symm.trans h
  · cases ho.symm.trans h
  · rcases hw with hw | ⟨_, hw⟩
    · exact ⟨w, hw, Except.ok.inj (h.symm.trans ho)⟩
    · simp [Policy.choose?, hstrict] at hw

theorem Prefers.of_close? {n low : Nat} {succeeded : Bool} {before state : GoalState} {r : Rule}
    (hp : Prefers state r) (h : before.close? n low succeeded = some state) :
    Prefers before r := by
  cases state with
  | inProgress j id => cases hp
  | failed f => cases hp
  | resolved p =>
    rcases GoalState.close?_resolved h with rfl | ⟨chain, rfl, _⟩ <;> exact hp
  | provisional k o chain =>
    rcases GoalState.close?_provisional h with ⟨rfl, _⟩ | ⟨rfl, _⟩ <;> cases o <;> exact hp

namespace Search

variable {catalog : Catalog} {policy : Policy} {s : Search}

/-- The top frame finds a proof, and passes over a rule of which no requirement has failed but some
requirement is not settled. -/
structure Passes (policy : Policy) (s : Search) (goal : Term) (r : Rule) : Prop where
  closing : s.Closing
  ended : s.top.goal = goal
  proved : ∃ p, s.verdict policy = .ok p ∧ r.id ≠ p.rule
  unsettled : ∃ subst, unify goal r.head = .ok subst ∧ ∃ q ∈ r.body, ∃ x,
    subst.apply q.pattern = .ok x ∧ x ≠ goal ∧ Unsettled s.ledger.get? x
  unmet : ∀ subst, unify goal r.head = .ok subst →
    ¬r.Lacks subst fun x => x = goal ∨ HasFailed (s.closed policy) x

/-- The rules that the proof of the top frame is preferred to lack something, or are passed over. -/
theorem passes_of_proved (hi : catalog.Indexed) (hstrict : policy.tieBreak = .strict)
    (h : Aligned s.stack s.ledger.get?) (hacc : Accounted catalog s.stack s.ledger.get?)
    (hs : s.Closing) (hc : ¬s.top.IsCut) {p : Proof} (hv : s.verdict policy = .ok p) {r : Rule}
    (hr : r ∈ catalog.rules) (hne : r.id ≠ p.rule) {subst : Substitution}
    (hu : unify s.top.goal r.head = .ok subst) :
    r.Lacks subst (fun x => x = s.top.goal ∨ HasFailed (s.closed policy) x) ∨
      s.Passes policy s.top.goal r := by
  by_cases hl : r.Lacks subst fun x => x = s.top.goal ∨ HasFailed (s.closed policy) x
  · exact .inl hl
  have ho : (s.verdict policy).isDepthExceeded = false := not_verdict_isDepthExceeded hc
  obtain ⟨w, hw, rfl⟩ := Frame.outcome_strict hstrict hv
  have hother : ∀ w' ∈ s.top.successes, w'.rule ≠ r := by
    rw [hw]
    rintro w' hw' rfl
    exact hne (congrArg (fun w => w.rule.id) (List.mem_singleton.mp hw'))
  obtain ⟨q, hq, hhindered⟩ :=
    halted_of_ended hc hs.1 hs.2 hacc (hi.mem_candidates hr hu) hother subst hu
  have hopen : ∃ x, subst.apply q.pattern = .ok x ∧
      ¬(x = s.top.goal ∨ HasFailed (s.closed policy) x) := by
    by_contra hnone
    push Not at hnone
    exact hl ⟨q, hq, hnone⟩
  obtain ⟨x, hx, hopen⟩ := hopen
  push Not at hopen
  -- A final failure of the requirement would be there still, so it was under way or provisional.
  have hunsettled : Unsettled s.ledger.get? x := by
    rcases hhindered x hx with hf | ⟨j, id, hg, _⟩ | ⟨k, f, chain, hg, _⟩
    · exact absurd (hasFailed_keep h hc ho hf) hopen.2
    · exact .inl ⟨j, id, hg⟩
    · exact .inr ⟨k, f, chain, hg⟩
  refine .inr ⟨hs, rfl, ⟨_, hv, hne⟩, ⟨subst, hu, q, hq, x, hx, hopen.1, hunsettled⟩, ?_⟩
  intro subst' hu'
  obtain rfl := Except.ok.inj (hu.symm.trans hu')
  exact hl

/-- What a frame prefers when it ends was preferred before, or the other rule lacks something, or
is passed over. -/
theorem prefers_closed (hi : catalog.Indexed) (hstrict : policy.tieBreak = .strict)
    (h : Aligned s.stack s.ledger.get?) (hacc : Accounted catalog s.stack s.ledger.get?)
    (hs : s.Closing) (hc : ¬s.top.IsCut) {goal : Term} {state : GoalState}
    (hst : s.closed policy goal = some state) {r : Rule} (hr : r ∈ catalog.rules)
    (hp : Prefers state r) {subst : Substitution} (hu : unify goal r.head = .ok subst) :
    (∃ before, s.ledger.get? goal = some before ∧ Prefers before r ∧
      state.outcome? = before.outcome?) ∨
      r.Lacks subst (fun x => x = goal ∨ HasFailed (s.closed policy) x) ∨
        s.Passes policy goal r := by
  have ho : (s.verdict policy).isDepthExceeded = false := not_verdict_isDepthExceeded hc
  by_cases hne : goal = s.top.goal
  · subst hne
    obtain ⟨p, hv, hpr⟩ : ∃ p, s.verdict policy = .ok p ∧ r.id ≠ p.rule := by
      rw [closed, keep_top ho] at hst
      cases hv : s.verdict policy with
      | ok p =>
        refine ⟨p, rfl, ?_⟩
        rw [hv] at hst
        split at hst <;> cases hst <;> exact hp
      | error f =>
        rw [hv] at hst
        split at hst <;> cases hst <;> cases hp
    exact .inr (passes_of_proved hi hstrict h hacc hs hc hv hr hpr hu)
  · rw [closed, keep_states h hc ho hne] at hst
    obtain ⟨before, hb, hcl⟩ := Option.bind_eq_some_iff.mp hst
    have hp' := hp.of_close? hcl
    rcases spread_cases ho goal with hsame | ⟨_, _, _, _, _, _, _, _, _, _, hspread⟩
    · exact .inl ⟨before, hsame.symm.trans hb, hp', GoalState.outcome?_close? hcl⟩
    · obtain rfl := Option.some.inj (hspread.symm.trans hb)
      cases hp'

/-- A goal of which the frame has found a proof prefers that to the rule passed over. -/
theorem Passes.prefers {goal : Term} {r : Rule} (h : s.Passes policy goal r) :
    ∃ state, s.closed policy goal = some state ∧ Prefers state r := by
  obtain ⟨p, hv, hne⟩ := h.proved
  have ho : (s.verdict policy).isDepthExceeded = false := by
    rw [hv]
    rfl
  refine ⟨_, by rw [← h.ended, closed, keep_top ho], ?_⟩
  rw [hv]
  split <;> exact hne

theorem Lasts.prefers {states : States} {goal : Term} {r : Rule} (h : s.Lasts policy states goal)
    (ha : Aligned [] states) (hp : ∃ state, s.closed policy goal = some state ∧ Prefers state r) :
    ∃ p, states goal = some (.resolved p) ∧ r.id ≠ p.rule := by
  obtain ⟨state, hst, hprefers⟩ := hp
  have proof : ∀ p, state.outcome? = some (.ok p) → r.id ≠ p.rule := by
    intro p hout
    cases state with
    | resolved q => cases hout; exact hprefers
    | provisional k outcome chain => cases hout; exact hprefers
    | _ => cases hprefers
  rcases h.idle ha with ⟨p, hclosed, hnow⟩ | ⟨f, hclosed, _⟩
  · rw [hst] at hclosed
    exact ⟨p, hnow, proof p hclosed⟩
  · rw [hst] at hclosed
    cases state with
    | provisional k outcome chain => cases hclosed; cases hprefers
    | resolved q => cases hclosed
    | _ => cases hprefers

end Search

variable {catalog : Catalog} {policy : Policy} {past : List Search}

/-- A rule with a failed requirement, or one that is the goal itself, is no rival. -/
theorem Rule.Lacks.not_suffices {r : Rule} {states : States} {table : ProofTable} {goal : Term}
    {subst : Substitution} (hw : Warranted [] states table) (hu : unify goal r.head = .ok subst)
    (h : r.Lacks subst fun x => x = goal ∨ HasFailed states x) :
    ¬r.Suffices states table goal := by
  rintro ⟨subst', hu', hall⟩
  obtain rfl := Except.ok.inj (hu.symm.trans hu')
  obtain ⟨q, hq, hlacks⟩ := h
  obtain ⟨x, hx, p, hp, hleads⟩ := hall q hq
  rcases hlacks x hx with rfl | ⟨f, hf⟩
  · exact hleads p .refl (hw.resolved _ p hp).1
  · cases hf.symm.trans hp

/-- Between calls, and without a tie-break, no goal is resolved by one rule with a rival exactly if no
rule suffices for a goal that still has the proof for which some frame passed over the rule, or which
it kept as it dropped what the rule lacked. -/
theorem no_goal_rivalled_iff {clauses : List (String × Clause)} {V : Type} {s : Prover V}
    (hb : Catalog.build clauses = .ok catalog) (hstrict : policy.tieBreak = .strict)
    (hs : Session catalog policy past s) :
    (∀ goal, ∀ r ∈ catalog.rules, ¬Rivalled s.known.ledger.get? s.known.table goal r) ↔
      ∀ e ∈ past, ∀ goal, ∀ r ∈ catalog.rules,
        e.Passes policy goal r ∨ e.Drops policy Prefers goal r →
          e.Lasts policy s.known.ledger.get? goal →
            ¬r.Suffices s.known.ledger.get? s.known.table goal := by
  have hi := Catalog.build_indexed hb
  have inv := Grounds.invariant policy Prefers (Search.Passes policy) hi (fun _ _ _ h => h)
    fun _ ha hacc hs hc _ _ hst _ hr hp _ hu =>
      Search.prefers_closed hi hstrict ha hacc hs hc hst hr hp hu
  obtain ⟨hidle, ⟨graph, _⟩, grounds⟩ := inv.kept.learnt hs.learnt.2.2
  constructor
  · intro h e _ goal r hr hcase hlasts hsuff
    have hclosed : ∃ state, e.closed policy goal = some state ∧ Prefers state r :=
      hcase.elim (fun hp => hp.prefers) (fun hd => hd.kept)
    exact h goal r hr ⟨hlasts.prefers hidle hclosed, hsuff⟩
  · rintro h goal r hr ⟨⟨p, hp, hne⟩, hsuff⟩
    obtain ⟨subst, hu, _⟩ := id hsuff
    rcases grounds goal _ hp r hr hne subst hu with hl | ⟨e, he, hcase, hlasts⟩
    · exact hl.not_suffices graph.warranted hu hsuff
    · exact h e he goal r hr hcase hlasts hsuff

/-- A proof without requirements leads nowhere. -/
theorem ProofTable.leads_of_leaf {table : ProofTable} {p d : Proof} (hp : p.edges = [])
    (h : Relation.ReflTransGen table.Leads p d) : d = p := by
  rcases Relation.ReflTransGen.cases_head h with rfl | ⟨_, ⟨e, he, _⟩, _⟩
  · rfl
  · simp [hp] at he

instance decidableExistsResolved {state : Option GoalState} {P : Proof → Prop} [DecidablePred P] :
    Decidable (∃ p, state = some (.resolved p) ∧ P p) :=
  match state with
  | some (.resolved p) => decidable_of_iff (P p) (by simp)
  | some (.inProgress _ _) | some (.provisional _ _ _) | some (.failed _) | none =>
    .isFalse (by simp)

/-- Two goals, the inner of which can take the outer one now or later. -/
def shell : List (String × Clause) :=
  [("p", ⟨"outer_inner", .const "Outer", [⟨.const "Inner", true⟩, ⟨.const "Missing", false⟩]⟩),
    ("p", ⟨"outer", .const "Outer", []⟩),
    ("p", ⟨"inner_later", .const "Inner", [⟨.const "Outer", true⟩]⟩),
    ("p", ⟨"inner_now", .const "Inner", [⟨.const "Outer", false⟩]⟩)]

def innerNow : Rule :=
  ⟨3, "p::inner_now", .const "Inner", [⟨.const "Outer", false⟩]⟩

def shellCatalog : Catalog where
  rules := [
    ⟨0, "p::outer_inner", .const "Outer", [⟨.const "Inner", true⟩, ⟨.const "Missing", false⟩]⟩,
    ⟨1, "p::outer", .const "Outer", []⟩,
    ⟨2, "p::inner_later", .const "Inner", [⟨.const "Outer", true⟩]⟩,
    innerNow]
  index := [("Outer", [0, 1]), ("Inner", [2, 3])]
  arities := [("Outer", 0), ("Inner", 0), ("Missing", 0)]

theorem build_shell : Catalog.build shell = .ok shellCatalog := by decide

theorem shell_compile_outer : ∃ answer s,
    (Prover.start shellCatalog Policy.default : Prover Unit).compile 14 (.const "Outer") =
      some (answer, s) ∧ Rivalled s.known.ledger.get? s.known.table (.const "Inner") innerNow := by
  have hany : ((Prover.start shellCatalog Policy.default : Prover Unit).compile 14
      (.const "Outer")).any (fun a =>
        (∃ p, a.2.known.ledger.get? (.const "Inner") = some (.resolved p) ∧
          innerNow.id ≠ p.rule) ∧
        ∃ p, a.2.known.ledger.get? (.const "Outer") = some (.resolved p) ∧
          p.edges = [] ∧ p.goal ≠ .const "Inner") = true := by decide +kernel
  obtain ⟨⟨answer, s⟩, hc, h⟩ := (Option.any_eq_true _ _).mp hany
  obtain ⟨hinner, p, hp, hleaf, hgoal⟩ := of_decide_eq_true h
  refine ⟨answer, s, hc, hinner, .empty, rfl, fun q hq => ?_⟩
  obtain rfl := List.mem_singleton.mp hq
  refine ⟨.const "Outer", rfl, p, hp, fun d hd => ?_⟩
  rw [ProofTable.leads_of_leaf hleaf hd]
  exact hgoal

/-- The inner goal is resolved by the first of two rules that prove it from the outer goal. -/
theorem shell_inner_rivalled : Catalog.build shell = .ok shellCatalog ∧ ∃ past, ∃ s : Prover Unit,
    Session shellCatalog Policy.default past s ∧ ∃ r ∈ shellCatalog.rules,
      Rivalled s.known.ledger.get? s.known.table (.const "Inner") r := by
  obtain ⟨answer, s, hc, hrival⟩ := shell_compile_outer
  exact ⟨build_shell, _, s, .compile .start hc, innerNow, by decide, hrival⟩

theorem shell_passes_inner : ∃ past, ∃ s : Prover Unit,
    Session shellCatalog Policy.default past s ∧ ∃ e ∈ past, ∃ goal, ∃ r ∈ shellCatalog.rules,
      (e.Passes Policy.default goal r ∨ e.Drops Policy.default Prefers goal r) ∧
        e.Lasts Policy.default s.known.ledger.get? goal ∧
          r.Suffices s.known.ledger.get? s.known.table goal := by
  obtain ⟨answer, s, hc, hrival⟩ := shell_compile_outer
  have hs : Session shellCatalog Policy.default _ s := .compile .start hc
  refine ⟨_, s, hs, ?_⟩
  by_contra hnone
  push Not at hnone
  have hall := (no_goal_rivalled_iff build_shell rfl hs).mpr fun e he goal r hr h hlasts =>
    hnone e he goal r hr h hlasts
  exact hall (.const "Inner") innerNow (by decide) hrival

end Clausal
