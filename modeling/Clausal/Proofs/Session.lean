import Clausal.Prover

namespace Clausal

/-- The states that a search is in during its next `budget` steps, this one first. -/
def Search.trace (catalog : Catalog) (policy : Policy) : Nat → Search → List Search
  | 0, _ => []
  | budget + 1, s =>
    s ::
      match s.step catalog policy with
      | .finished _ _ => []
      | .running next => trace catalog policy budget next

/-- The states of the search that a call for `goal` makes, none when the call needs no search. -/
def Knowledge.trace (catalog : Catalog) (policy : Policy) (budget : Nat) (known : Knowledge)
    (goal : Term) : List Search :=
  if !goal.isGround then []
  else
    match known.ledger.get? goal with
    | some (.resolved _) => []
    | some (.failed _) => []
    | _ =>
      match policy.refusal? [] goal with
      | some _ => []
      | none =>
        (Search.push catalog { known with ledger := known.ledger.miss } [] goal).trace catalog
          policy budget

/-- What a prover knows after some calls, with all the search states that it went through. -/
inductive Learnt (catalog : Catalog) (policy : Policy) : List Search → Knowledge → Prop
  | nothing : Learnt catalog policy [] Knowledge.empty
  | prove {past known budget goal outcome next} : Learnt catalog policy past known →
      known.prove catalog policy budget goal = some (outcome, next) →
      Learnt catalog policy (past ++ known.trace catalog policy budget goal) next
  | forget {past known} : Learnt catalog policy past known →
      Learnt catalog policy past { known with ledger := Ledger.empty }

/-- The states of a prover between calls, with all the search states that it went through. -/
inductive Session (catalog : Catalog) (policy : Policy) {V : Type} :
    List Search → Prover V → Prop
  | start : Session catalog policy [] (Prover.start catalog policy)
  | compile {past s budget goal answer next} : Session catalog policy past s →
      s.compile budget goal = some (answer, next) →
      Session catalog policy (past ++ s.known.trace catalog policy budget goal) next
  | resolve {past s budget goal answer next} {S : Type} {handles : RuleId → Handle V S}
      {w w' : Workshop V S} : Session catalog policy past s →
      s.resolve handles budget goal w = some (answer, next, w') →
      Session catalog policy (past ++ s.known.trace catalog policy budget goal) next
  | resolveAs {past s budget goal} {S T : Type} {shape : Shape V T}
      {handles : RuleId → Handle V S} {w w' : Workshop V S} {answer : Except Failure T} {next} :
      Session catalog policy past s →
      s.resolveAs shape handles budget goal w = some (answer, next, w') →
      Session catalog policy (past ++ s.known.trace catalog policy budget goal) next
  | reset {past s} : Session catalog policy past s → Session catalog policy past s.reset

variable {catalog : Catalog} {policy : Policy}

/-- A call answers by the outcome of its search. -/
theorem Prover.compile_outcome {V : Type} {s next : Prover V} {budget : Nat} {goal : Term}
    {answer : Except Failure Plan} (h : s.compile budget goal = some (answer, next)) :
    ∃ outcome known, s.known.prove s.catalog s.policy budget goal = some (outcome, known) ∧
      answer = outcome.map (Plan.mk known.table) ∧ next = { s with known := known } := by
  unfold compile at h
  split at h
  · simp at h
  next p known hp => cases h; exact ⟨.ok p, known, hp, rfl, rfl⟩
  next f known hp => cases h; exact ⟨.error f, known, hp, rfl, rfl⟩

/-- How a call for a value comes to its answer: from the search, from the value kept for the proof,
or by building one. -/
inductive Prover.Resolution {V S : Type} (s : Prover V) (handles : RuleId → Handle V S)
    (budget : Nat) (goal : Term) (w : Workshop V S) :
    Except Failure V → Prover V → Workshop V S → Prop
  | failed {f mid} : s.compile budget goal = some (.error f, mid) →
      Resolution s handles budget goal w (.error f) mid w
  | recalled {plan mid v} : s.compile budget goal = some (.ok plan, mid) →
      mid.values.lookup plan.proof.id = some v → Resolution s handles budget goal w (.ok v) mid w
  | broken {plan mid f w'} : s.compile budget goal = some (.ok plan, mid) →
      mid.values.lookup plan.proof.id = none → plan.invoke handles w = some (.error f, w') →
      Resolution s handles budget goal w (.error f) mid w'
  | built {plan mid v w'} : s.compile budget goal = some (.ok plan, mid) →
      mid.values.lookup plan.proof.id = none → plan.invoke handles w = some (.ok v, w') →
      Resolution s handles budget goal w (.ok v)
        { mid with values := (plan.proof.id, v) :: mid.values } w'

theorem Prover.resolution {V S : Type} {s next : Prover V} {handles : RuleId → Handle V S}
    {budget : Nat} {goal : Term} {w w' : Workshop V S} {answer : Except Failure V}
    (h : s.resolve handles budget goal w = some (answer, next, w')) :
    Resolution s handles budget goal w answer next w' := by
  unfold resolve at h
  split at h
  · simp at h
  next f mid hc => cases h; exact .failed hc
  next plan mid hc =>
    split at h
    next v hv => cases h; exact .recalled hc hv
    next hn =>
      split at h
      · simp at h
      next f w' hi => cases h; exact .broken hc hn hi
      next v w' hi => cases h; exact .built hc hn hi

/-- Building values changes nothing of what is known of goals. -/
theorem Prover.Resolution.compiled {V S : Type} {s next : Prover V} {handles : RuleId → Handle V S}
    {budget : Nat} {goal : Term} {w w' : Workshop V S} {answer : Except Failure V}
    (h : Resolution s handles budget goal w answer next w') :
    ∃ plan mid, s.compile budget goal = some (plan, mid) ∧
      next = { mid with values := next.values } := by
  cases h with
  | failed hc => exact ⟨_, _, hc, rfl⟩
  | recalled hc _ => exact ⟨_, _, hc, rfl⟩
  | broken hc _ _ => exact ⟨_, _, hc, rfl⟩
  | built hc _ _ => exact ⟨_, _, hc, rfl⟩

theorem Prover.resolveAs_resolve {V S T : Type} {s next : Prover V} {shape : Shape V T}
    {handles : RuleId → Handle V S} {budget : Nat} {goal : Term} {w w' : Workshop V S}
    {answer : Except Failure T}
    (h : s.resolveAs shape handles budget goal w = some (answer, next, w')) :
    ∃ value, s.resolve handles budget goal w = some (value, next, w') := by
  unfold resolveAs at h
  split at h
  · simp at h
  next f mid w hr => cases h; exact ⟨.error f, hr⟩
  next v mid w hr => cases h; exact ⟨.ok v, hr⟩

/-- A session knows what its calls for proofs taught it. -/
theorem Session.learnt {V : Type} {past : List Search} {s : Prover V}
    (h : Session catalog policy past s) :
    s.catalog = catalog ∧ s.policy = policy ∧ Learnt catalog policy past s.known := by
  have compiled : ∀ {past : List Search} {s next : Prover V} {budget goal plan},
      (s.catalog = catalog ∧ s.policy = policy ∧ Learnt catalog policy past s.known) →
      s.compile budget goal = some (plan, next) →
      next.catalog = catalog ∧ next.policy = policy ∧
        Learnt catalog policy (past ++ s.known.trace catalog policy budget goal) next.known := by
    intro past s next budget goal plan ⟨hc, hp, hl⟩ h
    obtain ⟨outcome, known, ho, _, rfl⟩ := Prover.compile_outcome h
    rw [hc, hp] at ho
    exact ⟨hc, hp, .prove hl ho⟩
  have resolved : ∀ {past : List Search} {s next : Prover V} {S : Type}
      {handles : RuleId → Handle V S} {w w' : Workshop V S} {budget goal value},
      (s.catalog = catalog ∧ s.policy = policy ∧ Learnt catalog policy past s.known) →
      s.resolve handles budget goal w = some (value, next, w') →
      next.catalog = catalog ∧ next.policy = policy ∧
        Learnt catalog policy (past ++ s.known.trace catalog policy budget goal) next.known := by
    intro past s next S handles w w' budget goal value hs h
    obtain ⟨plan, mid, hm, he⟩ := (Prover.resolution h).compiled
    obtain ⟨hc, hp, hl⟩ := compiled hs hm
    rw [he]
    exact ⟨hc, hp, hl⟩
  induction h with
  | start => exact ⟨rfl, rfl, .nothing⟩
  | compile _ hc ih => exact compiled ih hc
  | resolve _ hr ih => exact resolved ih hr
  | resolveAs _ hr ih =>
    obtain ⟨value, hv⟩ := Prover.resolveAs_resolve hr
    exact resolved ih hv
  | reset _ ih => exact ⟨ih.1, ih.2.1, .forget ih.2.2⟩

/-- What every call keeps, given the search states so far: `K` holds of what is known between
calls, and `S` of each state of a search. -/
structure Kept (catalog : Catalog) (policy : Policy) (K : List Search → Knowledge → Prop)
    (S : List Search → Search → Prop) : Prop where
  nothing : K [] Knowledge.empty
  forget : ∀ {past known}, K past known → K past { known with ledger := Ledger.empty }
  counted : ∀ {past known ledger}, K past known → ledger.entries = known.ledger.entries →
    K past { known with ledger := ledger }
  push : ∀ {past known goal}, K past known → goal.isGround = true →
    (∀ p, known.ledger.get? goal ≠ some (.resolved p)) →
    (∀ f, known.ledger.get? goal ≠ some (.failed f)) →
    S past (Search.push catalog known [] goal)
  running : ∀ {past s next}, S past s → s.step catalog policy = .running next →
    S (past ++ [s]) next
  finished : ∀ {past s outcome known}, S past s →
    s.step catalog policy = .finished outcome known → K (past ++ [s]) known

/-- A search that comes to an end does so by a last step, from a state that it kept. -/
theorem Search.run_finished (past : List Search) {S : List Search → Search → Prop} {outcome : Outcome}
    {known : Knowledge}
    (running : ∀ {past s next}, S past s → s.step catalog policy = .running next →
      S (past ++ [s]) next) {budget : Nat} {s : Search} (hs : S past s)
    (h : s.run catalog policy budget = some (outcome, known)) :
    ∃ before last, past ++ s.trace catalog policy budget = before ++ [last] ∧ S before last ∧
      last.step catalog policy = .finished outcome known := by
  induction budget generalizing past s with
  | zero => simp [run] at h
  | succ budget ih =>
    unfold run at h
    cases hstep : s.step catalog policy with
    | finished o k =>
      simp only [hstep, Option.some.injEq, Prod.mk.injEq] at h
      obtain ⟨rfl, rfl⟩ := h
      exact ⟨past, s, by simp [trace, hstep], hs, hstep⟩
    | running next =>
      simp only [hstep] at h
      obtain ⟨before, last, he, hl, hf⟩ := ih _ (running hs hstep) h
      refine ⟨before, last, ?_, hl, hf⟩
      rw [← he]
      simp [trace, hstep]

/-- How a call comes to its answer, and the search states that it goes through. -/
inductive Knowledge.Call (catalog : Catalog) (policy : Policy) (budget : Nat) (known : Knowledge)
    (goal : Term) : Prop
  | nonGround : goal.isGround = false →
      known.prove catalog policy budget goal = some (.error (.nonGroundGoal goal), known) →
      known.trace catalog policy budget goal = [] → Call catalog policy budget known goal
  | resolved {p} : known.ledger.get? goal = some (.resolved p) →
      known.prove catalog policy budget goal =
        some (.ok p, { known with ledger := known.ledger.hit }) →
      known.trace catalog policy budget goal = [] → Call catalog policy budget known goal
  | failed {f} : known.ledger.get? goal = some (.failed f) →
      known.prove catalog policy budget goal =
        some (.error (f.seenFrom []), { known with ledger := known.ledger.hit }) →
      known.trace catalog policy budget goal = [] → Call catalog policy budget known goal
  | refused {f} : goal.isGround = true → (∀ p, known.ledger.get? goal ≠ some (.resolved p)) →
      (∀ f, known.ledger.get? goal ≠ some (.failed f)) → policy.refusal? [] goal = some f →
      known.prove catalog policy budget goal =
        some (.error f, { known with ledger := known.ledger.miss }) →
      known.trace catalog policy budget goal = [] → Call catalog policy budget known goal
  | searched : goal.isGround = true → (∀ p, known.ledger.get? goal ≠ some (.resolved p)) →
      (∀ f, known.ledger.get? goal ≠ some (.failed f)) →
      known.prove catalog policy budget goal =
        (Search.push catalog { known with ledger := known.ledger.miss } [] goal).run catalog policy
          budget →
      known.trace catalog policy budget goal =
        (Search.push catalog { known with ledger := known.ledger.miss } [] goal).trace catalog
          policy budget →
      Call catalog policy budget known goal

section

variable {budget : Nat} {known : Knowledge} {goal : Term} (hg : goal.isGround = true)
  (hr : ∀ p, known.ledger.get? goal ≠ some (.resolved p))
  (hf : ∀ f, known.ledger.get? goal ≠ some (.failed f))

include hg hr hf

theorem Knowledge.prove_unknown : known.prove catalog policy budget goal =
    match policy.refusal? [] goal with
    | some f => some (.error f, { known with ledger := known.ledger.miss })
    | none =>
      (Search.push catalog { known with ledger := known.ledger.miss } [] goal).run catalog policy
        budget := by
  unfold prove
  rw [hg]
  cases hs : known.ledger.get? goal with
  | none => rfl
  | some state =>
    cases state with
    | resolved p => exact absurd hs (hr p)
    | failed f => exact absurd hs (hf f)
    | inProgress j id => rfl
    | provisional k o chain => rfl

theorem Knowledge.trace_unknown : known.trace catalog policy budget goal =
    match policy.refusal? [] goal with
    | some _ => []
    | none =>
      (Search.push catalog { known with ledger := known.ledger.miss } [] goal).trace catalog policy
        budget := by
  unfold trace
  rw [hg]
  cases hs : known.ledger.get? goal with
  | none => rfl
  | some state =>
    cases state with
    | resolved p => exact absurd hs (hr p)
    | failed f => exact absurd hs (hf f)
    | inProgress j id => rfl
    | provisional k o chain => rfl

end

theorem Knowledge.call (catalog : Catalog) (policy : Policy) (budget : Nat) (known : Knowledge)
    (goal : Term) : Call catalog policy budget known goal := by
  cases hg : goal.isGround with
  | false => exact .nonGround hg (by simp [prove, hg]) (by simp [trace, hg])
  | true =>
    by_cases hr : ∃ p, known.ledger.get? goal = some (.resolved p)
    · obtain ⟨p, hp⟩ := hr
      exact .resolved hp (by simp [prove, hg, hp]) (by simp [trace, hg, hp])
    by_cases hf : ∃ f, known.ledger.get? goal = some (.failed f)
    · obtain ⟨f, hf⟩ := hf
      exact .failed hf (by simp [prove, hg, hf]) (by simp [trace, hg, hf])
    have hr' : ∀ p, known.ledger.get? goal ≠ some (.resolved p) := fun p hp => hr ⟨p, hp⟩
    have hf' : ∀ f, known.ledger.get? goal ≠ some (.failed f) := fun f hp => hf ⟨f, hp⟩
    cases hp : policy.refusal? [] goal with
    | some f =>
      refine .refused hg hr' hf' hp ?_ ?_
      · rw [prove_unknown hg hr' hf', hp]
      · rw [trace_unknown hg hr' hf', hp]
    | none =>
      refine .searched hg hr' hf' ?_ ?_
      · rw [prove_unknown hg hr' hf', hp]
      · rw [trace_unknown hg hr' hf', hp]

/-- The state in which the search that a call makes for a goal begins. -/
def Knowledge.first (catalog : Catalog) (known : Knowledge) (goal : Term) : Search :=
  Search.push catalog { known with ledger := known.ledger.miss } [] goal

/-- A call for a goal searches: nothing final is known of the goal, and the depth bound admits it. -/
structure Knowledge.Searches (policy : Policy) (known : Knowledge) (goal : Term) : Prop where
  ground : goal.isGround = true
  unresolved : ∀ p, known.ledger.get? goal ≠ some (.resolved p)
  unfailed : ∀ f, known.ledger.get? goal ≠ some (.failed f)
  admitted : policy.refusal? [] goal = none

section

variable {known : Knowledge} {goal : Term} {budget : Nat}

theorem Knowledge.Searches.prove (h : known.Searches policy goal) :
    known.prove catalog policy budget goal =
      (known.first catalog goal).run catalog policy budget := by
  rw [prove_unknown h.ground h.unresolved h.unfailed, h.admitted]
  rfl

theorem Knowledge.Searches.trace (h : known.Searches policy goal) :
    known.trace catalog policy budget goal =
      (known.first catalog goal).trace catalog policy budget := by
  rw [trace_unknown h.ground h.unresolved h.unfailed, h.admitted]
  rfl

/-- A call searches, or has its answer at once and counts a hit or a miss at most. -/
theorem Knowledge.searches_or (catalog : Catalog) (policy : Policy) (known : Knowledge)
    (goal : Term) : known.Searches policy goal ∨
      ∀ budget, known.trace catalog policy budget goal = [] ∧ ∃ outcome ledger,
        known.prove catalog policy budget goal = some (outcome, { known with ledger := ledger }) ∧
          ledger.entries = known.ledger.entries := by
  by_cases hsearches : known.Searches policy goal
  · exact .inl hsearches
  · refine .inr fun budget => ?_
    cases known.call catalog policy budget goal with
    | nonGround _ hp ht => exact ⟨ht, _, known.ledger, hp, rfl⟩
    | resolved _ hp ht => exact ⟨ht, _, known.ledger.hit, hp, rfl⟩
    | failed _ hp ht => exact ⟨ht, _, known.ledger.hit, hp, rfl⟩
    | refused _ _ _ _ hp ht => exact ⟨ht, _, known.ledger.miss, hp, rfl⟩
    | searched hg hr hf _ _ =>
      cases hrefusal : policy.refusal? [] goal with
      | none => exact absurd ⟨hg, hr, hf, hrefusal⟩ hsearches
      | some f =>
        have hp : known.prove catalog policy budget goal =
            some (.error f, { known with ledger := known.ledger.miss }) := by
          rw [prove_unknown hg hr hf, hrefusal]
        have ht : known.trace catalog policy budget goal = [] := by
          rw [trace_unknown hg hr hf, hrefusal]
        exact ⟨ht, _, known.ledger.miss, hp, rfl⟩

theorem Knowledge.isSome_of_not_searches (h : ¬known.Searches policy goal) :
    (known.prove catalog policy budget goal).isSome := by
  obtain ⟨_, outcome, ledger, hp, _⟩ :=
    (known.searches_or catalog policy goal).resolve_left h budget
  rw [hp]
  rfl

theorem Knowledge.searches_of_mem_trace {e : Search}
    (h : e ∈ known.trace catalog policy budget goal) : known.Searches policy goal := by
  rcases known.searches_or catalog policy goal with hsearches | hat
  · exact hsearches
  · rw [(hat budget).1] at h
    cases h

end

theorem Kept.prove {K : List Search → Knowledge → Prop} {S : List Search → Search → Prop}
    (kept : Kept catalog policy K S) (past : List Search) {known next : Knowledge} {budget : Nat}
    {goal : Term} {outcome : Outcome} (hk : K past known)
    (h : known.prove catalog policy budget goal = some (outcome, next)) :
    K (past ++ known.trace catalog policy budget goal) next := by
  rcases known.searches_or catalog policy goal with hs | hat
  · have miss : K past { known with ledger := known.ledger.miss } := kept.counted hk rfl
    rw [hs.prove] at h
    obtain ⟨before, last, he, hl, hstep⟩ := Search.run_finished past kept.running
      (kept.push miss hs.ground hs.unresolved hs.unfailed) h
    have htrace : past ++ known.trace catalog policy budget goal = before ++ [last] := by
      rw [hs.trace]
      exact he
    rw [htrace]
    exact kept.finished hl hstep
  · obtain ⟨htrace, _, ledger, hp, he⟩ := hat budget
    cases hp.symm.trans h
    rw [htrace, List.append_nil]
    exact kept.counted hk he

/-- A second property goes on with the first, if calls keep it given the first. -/
theorem Kept.and {K : List Search → Knowledge → Prop} {S : List Search → Search → Prop}
    {J : Knowledge → Prop} {R : Search → Prop} (kept : Kept catalog policy K S)
    (nothing : J Knowledge.empty)
    (forget : ∀ known, J known → J { known with ledger := Ledger.empty })
    (counted : ∀ known ledger, J known → ledger.entries = known.ledger.entries →
      J { known with ledger := ledger })
    (push : ∀ past known goal, K past known → J known → R (Search.push catalog known [] goal))
    (running : ∀ past s next, S past s → S (past ++ [s]) next → R s →
      s.step catalog policy = .running next → R next)
    (finished : ∀ past s outcome known, S past s → K (past ++ [s]) known → R s →
      s.step catalog policy = .finished outcome known → J known) :
    Kept catalog policy (fun past known => K past known ∧ J known)
      (fun past s => S past s ∧ R s) where
  nothing := ⟨kept.nothing, nothing⟩
  forget h := ⟨kept.forget h.1, forget _ h.2⟩
  counted h he := ⟨kept.counted h.1 he, counted _ _ h.2 he⟩
  push h hg hr hf := ⟨kept.push h.1 hg hr hf, push _ _ _ h.1 h.2⟩
  running := by
    rintro past s next ⟨hs, hs'⟩ hstep
    have hnext := kept.running hs hstep
    exact ⟨hnext, running past s next hs hnext hs' hstep⟩
  finished := by
    rintro past s outcome known ⟨hs, hs'⟩ hstep
    have hknown := kept.finished hs hstep
    exact ⟨hknown, finished past s outcome known hs hknown hs' hstep⟩

theorem Kept.learnt {K : List Search → Knowledge → Prop} {S : List Search → Search → Prop}
    (kept : Kept catalog policy K S) {past : List Search} {known : Knowledge}
    (h : Learnt catalog policy past known) : K past known := by
  induction h with
  | nothing => exact kept.nothing
  | prove _ hp ih => exact kept.prove _ ih hp
  | forget _ ih => exact kept.forget ih

end Clausal
