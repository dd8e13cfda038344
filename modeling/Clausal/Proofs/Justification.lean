import Clausal.Proofs.Grounds

namespace Clausal

/-- The failures that claim that no rule gives a proof. -/
def Failure.denies : Failure → Bool
  | .noRule _ _ _ => true
  | .cyclicRule _ _ _ => true
  | _ => false

def Denied (states : States) (goal : Term) : Prop :=
  ∃ f, states goal = some (.failed f) ∧ f.denies = true

def IsResolved (states : States) (goal : Term) : Prop :=
  ∃ p, states goal = some (.resolved p)

/-- The head of a rule matches a goal, and every requirement has a recorded proof. -/
def Rule.Applies (r : Rule) (states : States) (goal : Term) : Prop :=
  ∃ subst, unify goal r.head = .ok subst ∧
    ∀ q ∈ r.body, ∃ x, subst.apply q.pattern = .ok x ∧ IsResolved states x

/-- A rule applies to a goal that is recorded as having none. -/
def Overlooked (states : States) (goal : Term) (r : Rule) : Prop :=
  Denied states goal ∧ r.Applies states goal

section

variable {states : States} {goal : Term} {r : Rule}

instance decidableExistsOk {ε α : Type} {e : Except ε α} {P : α → Prop} [DecidablePred P] :
    Decidable (∃ a, e = .ok a ∧ P a) :=
  match e with
  | .ok a => decidable_of_iff (P a) (by simp)
  | .error _ => .isFalse (by simp)

instance : Decidable (Denied states goal) :=
  match h : states goal with
  | some (.failed f) => decidable_of_iff (f.denies = true) (by simp [Denied, h])
  | some (.inProgress _ _) | some (.provisional _ _ _) | some (.resolved _) | none =>
    .isFalse (by simp [Denied, h])

instance : Decidable (IsResolved states goal) :=
  match h : states goal with
  | some (.resolved p) => .isTrue ⟨p, h⟩
  | some (.inProgress _ _) | some (.provisional _ _ _) | some (.failed _) | none =>
    .isFalse (by simp [IsResolved, h])

instance : Decidable (r.Applies states goal) :=
  inferInstanceAs (Decidable (∃ subst, unify goal r.head = .ok subst ∧
    ∀ q ∈ r.body, ∃ x, subst.apply q.pattern = .ok x ∧ IsResolved states x))

instance : Decidable (Overlooked states goal r) :=
  inferInstanceAs (Decidable (_ ∧ _))

end

theorem Rule.Lacks.not_applies {r : Rule} {states : States} {goal : Term} {subst : Substitution}
    (hu : unify goal r.head = .ok subst) (hd : Denied states goal)
    (h : r.Lacks subst fun x => x = goal ∨ HasFailed states x) : ¬r.Applies states goal := by
  rintro ⟨subst', hu', hall⟩
  obtain rfl := Except.ok.inj (hu.symm.trans hu')
  obtain ⟨q, hq, hfailed⟩ := h
  obtain ⟨x, hx, p, hp⟩ := hall q hq
  obtain ⟨f, hf⟩ : HasFailed states x := by
    rcases hfailed x hx with rfl | hfailed
    · obtain ⟨f, hf, _⟩ := hd
      exact ⟨f, hf⟩
    · exact hfailed
  cases hf.symm.trans hp

/-- A frame that denies its goal has met no rule. -/
theorem Frame.outcome_denies {f : Frame} {policy : Policy} {chain : GoalChain} {failure : Failure}
    (h : f.outcome policy chain = .error failure) (hd : failure.denies = true) :
    f.successes = [] := by
  rcases f.outcome_cases policy chain with ⟨c, _, hc, ho⟩ | ⟨_, hs, _⟩ | ⟨_, _, _, ho⟩ | ⟨_, _, _, ho⟩
  · obtain rfl : c = failure := Except.error.inj (ho.symm.trans h)
    cases c <;> simp [Failure.denies, Failure.isDepthExceeded] at hd hc
  · exact hs
  · obtain rfl := Except.error.inj (ho.symm.trans h)
    simp [Failure.denies] at hd
  · cases ho.symm.trans h

/-- The state of a goal denies that a rule gives a proof. -/
def Denies : GoalState → Rule → Prop
  | .failed f, _ => f.denies = true
  | _, _ => False

namespace Search

/-- The top frame fails for good, and a failure parked on it becomes final with it. That leaves no
ground for giving up the rule, as none of its requirements has failed. -/
structure Freezes (policy : Policy) (s : Search) (goal : Term) (r : Rule) : Prop where
  closing : s.Closing
  failed : (s.verdict policy).succeeded = false
  last : s.below.length ≤ s.top.low
  parked : goal ∈ s.top.parked
  denied : Denied (s.closed policy) goal
  unmet : ∀ subst, unify goal r.head = .ok subst → ¬r.Lacks subst (HasFailed (s.closed policy))

variable {catalog : Catalog} {policy : Policy} {s : Search}

/-- Of a frame that ends with a final failure, each goal that hinders it has failed by then. -/
theorem hasFailed_of_hindered (h : Aligned s.stack s.ledger.get?) (hc : ¬s.top.IsCut)
    {outcome : Outcome} (ho : outcome.isDepthExceeded = false) (hfail : outcome.succeeded = false)
    (hlast : s.below.length ≤ s.top.low) {g : Term}
    (hg : Hindered s.ledger.get? s.top.low s.below.length g) :
    HasFailed (s.keep outcome).1.get? g := by
  obtain ⟨failure, rfl⟩ : ∃ failure, outcome = .error failure := by
    cases outcome with
    | ok p => cases hfail
    | error failure => exact ⟨failure, rfl⟩
  rcases hg with hf | ⟨j, id, hg, hl, hh⟩ | ⟨k, f, chain, hg, hl, hh⟩
  · exact hasFailed_keep h hc ho hf
  · obtain rfl : j = s.below.length := by omega
    obtain ⟨f, hf, hfg, _⟩ := h.inProgress g _ id hg
    obtain rfl := Option.some.inj (getElem?_concat_top.symm.trans hf)
    rw [← hfg]
    exact ⟨failure, by rw [keep_top ho, if_neg (by omega)]; rfl⟩
  · obtain rfl : k = s.below.length := by omega
    have hne : g ≠ s.top.goal := by
      rintro rfl
      rw [top_framed h] at hg
      cases hg
    refine ⟨f, ?_⟩
    rw [keep_states h hc ho hne]
    rcases spread_cases (s := s) ho g with hs | ⟨_, p, _, _, _, _, hp, _⟩
    · have hl : ¬s.top.low < s.below.length := by omega
      simp [hs, hg, GoalState.close?, GoalState.confirm?, Outcome.succeeded, hl]
    · cases hg.symm.trans hp

/-- What a frame denies when it ends was denied before, or has a ground, or is frozen. -/
theorem denies_closed (hi : catalog.Indexed) (h : Aligned s.stack s.ledger.get?)
    (hacc : Accounted catalog s.stack s.ledger.get?) (hs : s.Closing) (hc : ¬s.top.IsCut)
    {goal : Term} {state : GoalState} (hst : s.closed policy goal = some state) {r : Rule}
    (hr : r ∈ catalog.rules) (hd : Denies state r) {subst : Substitution}
    (hu : unify goal r.head = .ok subst) :
    (∃ before, s.ledger.get? goal = some before ∧ Denies before r ∧
      state.outcome? = before.outcome?) ∨
      r.Lacks subst (fun x => x = goal ∨ HasFailed (s.closed policy) x) ∨
        s.Freezes policy goal r := by
  have ho : (s.verdict policy).isDepthExceeded = false := not_verdict_isDepthExceeded hc
  obtain ⟨f, rfl, hd⟩ : ∃ f, state = .failed f ∧ f.denies = true := by
    cases state with
    | failed f => exact ⟨f, rfl, hd⟩
    | _ => cases hd
  rcases closed_failed h hc hst with ⟨rfl, hlast, hv⟩ | hbefore | ⟨hlast, hfail, chain, hb⟩
  · have hnone := Frame.outcome_denies hv hd
    have hhalted := halted_of_ended hc hs.1 hs.2 hacc (hi.mem_candidates hr hu) (by simp [hnone])
    refine .inr (.inl ((hhalted subst hu).mono fun x hx => .inr ?_))
    exact hasFailed_of_hindered h hc ho (by simp [hv, Outcome.succeeded]) hlast hx
  · exact .inl ⟨_, hbefore, hd, rfl⟩
  -- A parked failure becomes final with the frame's own, whatever it was due to.
  · by_cases hl : r.Lacks subst (HasFailed (s.closed policy))
    · exact .inr (.inl (hl.mono fun x hx => .inr hx))
    · have hparked := (mem_top_parked h hc ho).mpr ⟨_, chain, hb⟩
      refine .inr (.inr ⟨hs, hfail, hlast, hparked, ⟨f, hst, hd⟩, ?_⟩)
      intro subst' hu'
      obtain rfl := Except.ok.inj (hu.symm.trans hu')
      exact hl

theorem Drops.denied {goal : Term} {r : Rule} (h : s.Drops policy Denies goal r) :
    Denied (s.closed policy) goal := by
  obtain ⟨state, hst, hd⟩ := h.kept
  cases state with
  | failed f => exact ⟨f, hst, hd⟩
  | _ => cases hd

theorem Lasts.denied {states : States} {goal : Term} (h : s.Lasts policy states goal)
    (ha : Aligned [] states) (hd : Denied (s.closed policy) goal) : Denied states goal := by
  obtain ⟨f, hf, hdenies⟩ := hd
  rcases h.idle ha with ⟨p, hclosed, _⟩ | ⟨f', hclosed, hnow⟩
  · rw [hf] at hclosed
    cases hclosed
  · rw [hf] at hclosed
    cases hclosed
    exact ⟨f, hnow, hdenies⟩

end Search

variable {catalog : Catalog} {policy : Policy} {past : List Search}

/-- Between calls, no rule is overlooked exactly if none applies to a goal that still has the failure
which some frame froze without ground, or kept as it dropped the ground. -/
theorem no_rule_overlooked_iff {clauses : List (String × Clause)} {V : Type} {s : Prover V}
    (hb : Catalog.build clauses = .ok catalog) (hs : Session catalog policy past s) :
    (∀ goal, ∀ r ∈ catalog.rules, ¬Overlooked s.known.ledger.get? goal r) ↔
      ∀ e ∈ past, ∀ goal, ∀ r ∈ catalog.rules,
        e.Freezes policy goal r ∨ e.Drops policy Denies goal r →
          e.Lasts policy s.known.ledger.get? goal → ¬r.Applies s.known.ledger.get? goal := by
  have hi := Catalog.build_indexed hb
  have inv := Grounds.invariant policy Denies (Search.Freezes policy) hi (fun _ _ _ h => h)
    fun _ ha hacc hs hc _ _ hst _ hr hd _ hu => Search.denies_closed hi ha hacc hs hc hst hr hd hu
  obtain ⟨hidle, _, grounds⟩ := inv.kept.learnt hs.learnt.2.2
  constructor
  · intro h e _ goal r hr hcase hlasts happ
    have hclosed : Denied (e.closed policy) goal := hcase.elim (fun hf => hf.denied) (fun hd => hd.denied)
    exact h goal r hr ⟨hlasts.denied hidle hclosed, happ⟩
  · rintro h goal r hr ⟨hd, happ⟩
    have hdenied := hd
    obtain ⟨f, hf, hdenies⟩ := hdenied
    obtain ⟨subst, hu, _⟩ := id happ
    rcases grounds goal _ hf r hr hdenies subst hu with hl | ⟨e, he, hcase, hlasts⟩
    · exact hl.not_applies hu hd happ
    · exact h e he goal r hr hcase hlasts happ

/-- A cycle between two goals below a third one that fails. -/
def mesh : List (String × Clause) :=
  [("p", ⟨"top", .const "Top", [⟨.const "Mid", false⟩, ⟨.const "Missing", false⟩]⟩),
    ("p", ⟨"mid_low", .const "Mid", [⟨.const "Low", false⟩]⟩),
    ("p", ⟨"mid_top", .const "Mid", [⟨.const "Top", false⟩]⟩),
    ("p", ⟨"mid", .const "Mid", []⟩),
    ("p", ⟨"low", .const "Low", [⟨.const "Mid", false⟩]⟩)]

def meshCatalog : Catalog where
  rules := [⟨0, "p::top", .const "Top", [⟨.const "Mid", false⟩, ⟨.const "Missing", false⟩]⟩,
    ⟨1, "p::mid_low", .const "Mid", [⟨.const "Low", false⟩]⟩,
    ⟨2, "p::mid_top", .const "Mid", [⟨.const "Top", false⟩]⟩,
    ⟨3, "p::mid", .const "Mid", []⟩,
    ⟨4, "p::low", .const "Low", [⟨.const "Mid", false⟩]⟩]
  index := [("Top", [0]), ("Mid", [1, 2, 3]), ("Low", [4])]
  arities := [("Top", 0), ("Mid", 0), ("Missing", 0), ("Low", 0)]

theorem build_mesh : Catalog.build mesh = .ok meshCatalog := by decide

theorem mesh_compile_top : ∃ answer s, (Prover.start meshCatalog Policy.default : Prover Unit).compile
    15 (.const "Top") = some (answer, s) ∧
      ∃ r ∈ meshCatalog.rules, Overlooked s.known.ledger.get? (.const "Low") r := by
  have hany : ((Prover.start meshCatalog Policy.default : Prover Unit).compile 15
      (.const "Top")).any (fun a => ∃ r ∈ meshCatalog.rules,
        Overlooked a.2.known.ledger.get? (.const "Low") r) = true := by decide +kernel
  obtain ⟨⟨answer, s⟩, hc, ho⟩ := (Option.any_eq_true _ _).mp hany
  exact ⟨answer, s, hc, of_decide_eq_true ho⟩

/-- The lowest goal failed while the middle one was under way, and stays so after its success. -/
theorem mesh_overlooks_low : Catalog.build mesh = .ok meshCatalog ∧ ∃ past, ∃ s : Prover Unit,
    Session meshCatalog Policy.default past s ∧
      ∃ r ∈ meshCatalog.rules, Overlooked s.known.ledger.get? (.const "Low") r := by
  obtain ⟨answer, s, hc, ho⟩ := mesh_compile_top
  exact ⟨build_mesh, _, s, .compile .start hc, ho⟩

theorem mesh_freezes_low : ∃ past, ∃ s : Prover Unit, Session meshCatalog Policy.default past s ∧
    ∃ e ∈ past, ∃ goal, ∃ r ∈ meshCatalog.rules,
      (e.Freezes Policy.default goal r ∨ e.Drops Policy.default Denies goal r) ∧
        e.Lasts Policy.default s.known.ledger.get? goal ∧ r.Applies s.known.ledger.get? goal := by
  obtain ⟨answer, s, hc, r, hr, ho⟩ := mesh_compile_top
  have hs : Session meshCatalog Policy.default _ s := .compile .start hc
  refine ⟨_, s, hs, ?_⟩
  by_contra hnone
  push Not at hnone
  have hall := (no_rule_overlooked_iff build_mesh hs).mpr fun e he goal r hr h hlasts =>
    hnone e he goal r hr h hlasts
  exact hall (.const "Low") r hr ho

end Clausal
