import Clausal.Proofs.Building
import Clausal.Proofs.Tidiness

namespace Clausal

theorem ProofTable.Extends.trans {a b c : ProofTable} (h : a.Extends b) (h' : b.Extends c) :
    a.Extends c where
  size := le_trans h.size h'.size
  get? id p hp := h'.get? id p (h.get? id p hp)

/-- What is known of a goal is final: no frame is to decide on it. -/
structure Settled (g : Term) (state : GoalState) (frames : List Frame) (states : States) : Prop where
  state : states g = some state
  unparked : ∀ f ∈ frames, g ∉ f.parked

def GoalState.IsFinal (state : GoalState) : Prop :=
  (∃ p, state = .resolved p) ∨ ∃ f, state = .failed f

section

variable {catalog : Catalog} {policy : Policy} {g : Term} {state : GoalState}
  {frames : List Frame} {states : States} {s : Search}

theorem GoalState.IsFinal.close? (h : state.IsFinal) (n low : Nat) (succeeded : Bool) :
    state.close? n low succeeded = some state := by
  rcases h with ⟨p, rfl⟩ | ⟨f, rfl⟩ <;> rfl

theorem Settled.ne_top (h : Settled g state s.stack s.ledger.get?) (hfinal : state.IsFinal)
    (ha : Aligned s.stack s.ledger.get?) : g ≠ s.top.goal := by
  rintro rfl
  have hopen := (Search.top_framed ha).symm.trans h.state
  rcases hfinal with ⟨p, rfl⟩ | ⟨f, rfl⟩ <;> cases hopen

theorem Settled.keep (h : Settled g state s.stack s.ledger.get?) (hfinal : state.IsFinal)
    (ha : Aligned s.stack s.ledger.get?) (hc : ¬s.top.IsCut)
    (ho : (s.verdict policy).isDepthExceeded = false) :
    Settled g state
      ((s.keep (s.verdict policy)).2.modify (s.below.length - 1) (Frame.lower s.top.low))
      (s.keep (s.verdict policy)).1.get? := by
  have hne := h.ne_top hfinal ha
  have htop : g ∉ s.top.parked :=
    h.unparked s.top (List.mem_append_right _ (List.mem_singleton_self _))
  have hspread : (s.spread (s.verdict policy)).get? g = some state := by
    rcases Search.spread_cases ho g with hsame | ⟨k, p, chain, _, _, _, hp, _⟩
    · exact hsame.trans h.state
    · have hprovisional := hp.symm.trans h.state
      rcases hfinal with ⟨p, rfl⟩ | ⟨f, rfl⟩ <;> cases hprovisional
  have hstate : (s.keep (s.verdict policy)).1.get? g = some state := by
    rw [Search.keep_states ha hc ho hne, hspread]
    exact hfinal.close? _ _ _
  refine ⟨hstate, fun f hm => ?_⟩
  obtain ⟨i, hi⟩ := List.mem_iff_getElem?.mp hm
  have hunparked : ∀ f₁ : Frame, (s.keep (s.verdict policy)).2[i]? = some f₁ → g ∉ f₁.parked := by
    intro f₁ hf₁
    obtain ⟨f₀, hf₀, hcases⟩ := Search.keep_frames ho hf₁
    have hbelow := h.unparked f₀ (List.mem_append_left _ (List.mem_of_getElem? hf₀))
    rcases hcases with ⟨_, rfl⟩ | ⟨_, _, rfl⟩
    · exact hbelow
    · simp [Frame.park, hbelow, hne, htop]
  obtain ⟨f₁, hf₁, ⟨_, rfl⟩ | ⟨_, rfl⟩⟩ := getElem?_lower hi
  · exact hunparked f hf₁
  · exact hunparked f₁ hf₁

theorem Settled.cut (h : Settled g state s.stack s.ledger.get?) (hfinal : state.IsFinal)
    (ha : Aligned s.stack s.ledger.get?) {failure : Failure}
    (hf : failure.isDepthExceeded = true)
    (hcuts : Cuts (s.spread (.error failure)).get? s.top.low s.below frames) :
    Settled g state frames (s.spread (.error failure)).get? := by
  have htop : g ∉ s.top.parked :=
    h.unparked s.top (List.mem_append_right _ (List.mem_singleton_self _))
  have hunaffected : ¬s.Affected true g := by
    intro haffected
    rcases Ledger.affected_cases haffected with hgoal | ⟨_, hown⟩ | ⟨_, k, o, chain, hp⟩
    · exact h.ne_top hfinal ha hgoal
    · exact htop hown
    · have hprovisional := hp.symm.trans h.state
      rcases hfinal with ⟨p, rfl⟩ | ⟨f, rfl⟩ <;> cases hprovisional
  have hstate : (s.spread (.error failure)).get? g = some state := by
    rcases Search.cut_states (s := s) hf g with ⟨haffected, _⟩ | ⟨_, hsame⟩
    · exact absurd haffected hunaffected
    · exact hsame.trans h.state
  refine ⟨hstate, fun f hm => ?_⟩
  obtain ⟨i, hi⟩ := List.mem_iff_getElem?.mp hm
  obtain ⟨_, f₀, hf₀, hcases⟩ := hcuts.earlier hi
  have hbelow := h.unparked f₀ (List.mem_append_left _ (List.mem_of_getElem? hf₀))
  rcases hcases with rfl | ⟨_, hp⟩
  · exact hbelow
  · rwa [hp.same.2.2]

/-- No search touches what is known for good. -/
theorem settled_carried (catalog : Catalog) (policy : Policy) (g : Term)
    (hfinal : state.IsFinal) :
    Carried catalog policy fun _ frames states _ => Settled g state frames states where
  past h := h
  push _ h hg hs _ := by
    have hne : g ≠ _ := fun he => by
      have hnone := h.state
      rw [he, hg] at hnone
      cases hnone
    refine ⟨by rw [hs, if_neg hne, h.state], fun f hm => ?_⟩
    rcases List.mem_append.mp hm with hm | hm
    · exact h.unparked f hm
    · obtain rfl := List.mem_singleton.mp hm
      simp [Frame.start]
  progress _ h hp := by
    refine ⟨h.state, fun f hm => ?_⟩
    rcases List.mem_append.mp hm with hm | hm
    · exact h.unparked f (List.mem_append_left _ hm)
    · obtain rfl := List.mem_singleton.mp hm
      rw [hp.same.2.2]
      exact h.unparked _ (List.mem_append_right _ (List.mem_singleton_self _))
  refer j h := by
    refine ⟨h.state, fun f hm => ?_⟩
    obtain ⟨i, hi⟩ := List.mem_iff_getElem?.mp hm
    obtain ⟨f₀, hf₀, htwin⟩ := getElem?_refer hi
    rw [htwin.parked]
    exact h.unparked f₀ (List.mem_of_getElem? hf₀)
  keep ha h _ _ hc ho := h.keep hfinal ha hc ho
  cut ha h _ _ _ _ hf hcuts := h.cut hfinal ha hf hcuts

/-- Searches keep their proofs in order, and lose none. -/
theorem grown_carried (policy : Policy) (hc : catalog.Indexed) (before : ProofTable) :
    Carried catalog policy fun _ frames states table =>
      ProofGraph catalog frames states table ∧ before.Extends table where
  past h := h
  push _ h hg hs _ := ⟨h.1.push hc hg hs, h.2.trans (ProofTable.extends_reserve _)⟩
  progress ha h hp := ⟨h.1.progress ha hp, h.2⟩
  refer j h := ⟨h.1.refer j, h.2⟩
  keep ha h ht _ hcut ho :=
    ⟨h.1.keep ha ht hcut ho, h.2.trans (Search.extends_recorded policy h.1.numbered)⟩
  cut ha h ht _ _ _ hf hcuts := ⟨h.1.cut ha ht hf hcuts, h.2⟩

end

theorem Frame.outcome_chain {f : Frame} {policy : Policy} {chain : GoalChain} {failure : Failure}
    (hc : ¬f.IsCut) (h : f.outcome policy chain = .error failure) :
    failure.chain? = some chain := by
  rcases f.outcome_cases policy chain with ⟨c, hcut, _, _⟩ | ⟨_, _, ho⟩ | ⟨_, _, _, ho⟩ | ⟨_, w, _, ho⟩
  · exact absurd ⟨c, hcut⟩ hc
  · cases ho.symm.trans h
    rcases unproved_cases f.goal chain f.attempted with he | ⟨_, _, he⟩
    · rw [he]
      rfl
    · rw [he]
      rfl
  · cases ho.symm.trans h
    rfl
  · cases ho.symm.trans h

/-- The failure of the lowest frame has no chain above it, and is shown as it is. -/
theorem Search.seenFrom_verdict {policy : Policy} {s : Search} {f : Failure} (hc : ¬s.top.IsCut)
    (hb : s.below = []) (hv : s.verdict policy = .error f) : f.seenFrom [] = f := by
  have hchain : f.chain? = some [] := by
    rw [Frame.outcome_chain hc hv, hb]
    rfl
  simp [Failure.seenFrom, hchain]

namespace Knowledge

variable {catalog : Catalog} {policy : Policy} {known next : Knowledge} {budget : Nat}
  {goal g : Term} {outcome : Outcome} {state : GoalState}

theorem isFinal (ha : Aligned [] known.ledger.get?) (hg : known.ledger.get? g = some state) :
    state.IsFinal :=
  aligned_nil.mp ha g state hg

/-- What is known of a goal between calls is known after any call. -/
theorem prove_settled (ha : Aligned [] known.ledger.get?) (hg : known.ledger.get? g = some state)
    (hp : known.prove catalog policy budget goal = some (outcome, next)) :
    next.ledger.get? g = some state := by
  have carried := settled_carried catalog policy g (isFinal ha hg)
  obtain ⟨_, hsettled⟩ := carried.prove [] ha ⟨hg, by simp⟩ hp
  exact hsettled.state

/-- A call that is not cut short gives an answer that any call gives as long as it is known. -/
theorem prove_again (ha : Aligned [] known.ledger.get?) (hground : goal.isGround = true)
    (hp : known.prove catalog policy budget goal = some (outcome, next))
    (hd : outcome.isDepthExceeded = false) :
    ∃ state, next.ledger.get? goal = some state ∧
      ∀ later : Knowledge, later.ledger.get? goal = some state → ∀ budget,
        later.prove catalog policy budget goal =
          some (outcome, { later with ledger := later.ledger.hit }) := by
  cases known.call catalog policy budget goal with
  | nonGround hn _ _ => cases hn.symm.trans hground
  | @resolved p hg hcall _ =>
    cases hcall.symm.trans hp
    exact ⟨.resolved p, hg, fun later hl budget => by simp [prove, hground, hl]⟩
  | @failed f hg hcall _ =>
    cases hcall.symm.trans hp
    exact ⟨.failed f, hg, fun later hl budget => by simp [prove, hground, hl]⟩
  | refused _ _ _ hf hcall _ =>
    cases hcall.symm.trans hp
    cases (Policy.refusal?_isDepthExceeded hf).symm.trans hd
  | searched _ hr hf hcall _ =>
    obtain ⟨_, last, _, hb, _, rfl, rfl, hl⟩ := first_last ha hr hf (hcall.symm.trans hp)
    have hkept : next.ledger.get? last.top.goal =
        some (Search.finalState (last.verdict policy)) := by
      rw [hl, Search.keep_top hd, if_neg (by simp [hb])]
    refine ⟨_, hkept, fun later hlater budget => ?_⟩
    cases hv : last.verdict policy with
    | ok p =>
      rw [hv] at hlater
      have hlater : later.ledger.get? last.top.goal = some (.resolved p) := hlater
      simp [prove, hground, hlater]
    | error f =>
      rw [hv] at hlater
      have hlater : later.ledger.get? last.top.goal = some (.failed f) := hlater
      have hcut : ¬last.top.IsCut := by
        rw [← @Search.verdict_isDepthExceeded policy, hd]
        simp
      simp [prove, hground, hlater, Search.seenFrom_verdict hcut hb hv]

end Knowledge

namespace Prover

variable {V : Type}

/-- One call that is not for a reset, with the goals that it asks a value for. Asking for a status
and running a plan change nothing. -/
inductive Call (s : Prover V) : List Term → Prover V → Prop
  | compile {budget goal answer next} : s.compile budget goal = some (answer, next) →
      Call s [] next
  | resolve {budget goal answer next} {S : Type} {handles : RuleId → Handle V S}
      {w w' : Workshop V S} : s.resolve handles budget goal w = some (answer, next, w') →
      Call s [goal] next
  | resolveAs {budget goal next} {S T : Type} {shape : Shape V T} {handles : RuleId → Handle V S}
      {w w' : Workshop V S} {answer : Except Failure T} :
      s.resolveAs shape handles budget goal w = some (answer, next, w') → Call s [goal] next

/-- How a prover goes on as calls are made, with the goals that they ask a value for. -/
inductive Later (s : Prover V) : List Term → Prover V → Prop
  | same : Later s [] s
  | call {goals asked mid next} : Later s goals mid → mid.Call asked next →
      Later s (goals ++ asked) next

/-- A call that looks for a proof of a goal, and what it finds. -/
inductive Seeks (s : Prover V) (goal : Term) (answer : Except Failure Plan) : Prover V → Prop
  | compile {budget next} : s.compile budget goal = some (answer, next) → Seeks s goal answer next
  | resolve {budget next mid value} {S : Type} {handles : RuleId → Handle V S}
      {w w' : Workshop V S} : s.compile budget goal = some (answer, mid) →
      s.resolve handles budget goal w = some (value, next, w') → Seeks s goal answer next
  | resolveAs {budget next mid} {S T : Type} {shape : Shape V T} {handles : RuleId → Handle V S}
      {w w' : Workshop V S} {value : Except Failure T} : s.compile budget goal = some (answer, mid) →
      s.resolveAs shape handles budget goal w = some (value, next, w') → Seeks s goal answer next

/-- The prover with one more hit counted. -/
def hit (s : Prover V) : Prover V :=
  { s with known := { s.known with ledger := s.known.ledger.hit } }

/-- The prover once the construction for a proof has come out: it keeps a value. -/
def store (s : Prover V) (id : ProofId) : Except Failure V → Prover V
  | .ok v => { s with values := (id, v) :: s.values }
  | .error _ => s

section

variable {catalog : Catalog} {policy : Policy} {past : List Search} {s t mid next : Prover V}
  {goals asked : List Term} {goal : Term} {answer : Except Failure Plan} {budget : Nat}

/-- A call for a value keeps what the search finds, and adds a value at most. -/
theorem Resolution.cases {S : Type} {handles : RuleId → Handle V S} {w w' : Workshop V S}
    {value : Except Failure V} (h : Resolution s handles budget goal w value next w') :
    ∃ answer mid, s.compile budget goal = some (answer, mid) ∧
      (next = mid ∨ ∃ plan v, answer = .ok plan ∧ mid.values.lookup plan.proof.id = none ∧
        next = { mid with values := (plan.proof.id, v) :: mid.values }) := by
  cases h with
  | failed hc => exact ⟨_, _, hc, .inl rfl⟩
  | recalled hc _ => exact ⟨_, _, hc, .inl rfl⟩
  | broken hc _ _ => exact ⟨_, _, hc, .inl rfl⟩
  | @built plan mid v w' hc hn _ => exact ⟨_, _, hc, .inr ⟨plan, v, rfl, hn, rfl⟩⟩

theorem Call.cases (h : s.Call asked next) :
    ∃ budget goal answer mid, s.compile budget goal = some (answer, mid) ∧
      (next = mid ∨ asked = [goal] ∧ ∃ plan v, answer = .ok plan ∧
        mid.values.lookup plan.proof.id = none ∧
          next = { mid with values := (plan.proof.id, v) :: mid.values }) := by
  cases h with
  | @compile budget goal answer next hc => exact ⟨budget, goal, answer, next, hc, .inl rfl⟩
  | @resolve budget goal answer next S handles w w' hr =>
    obtain ⟨answer, mid, hc, hn⟩ := (resolution hr).cases
    exact ⟨budget, goal, answer, mid, hc, hn.imp_right fun h => ⟨rfl, h⟩⟩
  | @resolveAs budget goal next S T shape handles w w' answer hr =>
    obtain ⟨_, hr⟩ := resolveAs_resolve hr
    obtain ⟨answer, mid, hc, hn⟩ := (resolution hr).cases
    exact ⟨budget, goal, answer, mid, hc, hn.imp_right fun h => ⟨rfl, h⟩⟩

theorem Call.session (hs : Session catalog policy past s) (h : s.Call asked next) :
    ∃ past', Session catalog policy past' next := by
  cases h with
  | compile hc => exact ⟨_, hs.compile hc⟩
  | resolve hr => exact ⟨_, hs.resolve hr⟩
  | resolveAs hr => exact ⟨_, hs.resolveAs hr⟩

theorem Later.session (hs : Session catalog policy past s) (h : s.Later goals t) :
    ∃ past', Session catalog policy past' t := by
  induction h with
  | same => exact ⟨past, hs⟩
  | call _ hc ih =>
    obtain ⟨_, hmid⟩ := ih
    exact hc.session hmid

theorem Later.keeps {P : Knowledge → Prop} (hs : Session catalog policy past s)
    (hstep : ∀ past known budget goal outcome after, Learnt catalog policy past known → P known →
      known.prove catalog policy budget goal = some (outcome, after) → P after)
    (h : s.Later goals t) (hP : P s.known) : P t.known := by
  induction h with
  | same => exact hP
  | @call goals asked mid next hl hc ih =>
    obtain ⟨past', hmid⟩ := hl.session hs
    obtain ⟨hcatalog, hpolicy, hlearnt⟩ := hmid.learnt
    obtain ⟨budget, goal, answer, after, hcompile, hnext⟩ := hc.cases
    obtain ⟨outcome, known, hp, _, rfl⟩ := compile_outcome hcompile
    rw [hcatalog, hpolicy] at hp
    have hknown := hstep past' _ _ _ _ _ hlearnt ih hp
    rcases hnext with rfl | ⟨_, plan, v, _, _, rfl⟩ <;> exact hknown

theorem Later.settled (hs : Session catalog policy past s) (h : s.Later goals t) {g : Term}
    {state : GoalState} (hg : s.known.ledger.get? g = some state) :
    t.known.ledger.get? g = some state :=
  h.keeps (P := fun known => known.ledger.get? g = some state) hs
    (fun _ _ _ _ _ _ hl hk hp => Knowledge.prove_settled hl.clean.aligned hk hp) hg

theorem Later.grown (hi : catalog.Indexed) (hs : Session catalog policy past s)
    (h : s.Later goals t) : s.known.table.Extends t.known.table := by
  refine h.keeps (P := fun known => s.known.table.Extends known.table) hs ?_ ⟨le_rfl, fun _ _ => id⟩
  intro past known budget goal outcome after hl hk hp
  obtain ⟨ha, graph⟩ := (proofGraph_invariant policy hi).kept.learnt hl
  have carried := grown_carried policy hi s.known.table
  obtain ⟨_, hafter⟩ := carried.prove [] ha ⟨graph, hk⟩ hp
  exact hafter.2

theorem Later.lookup {id : ProofId} {v : V} (h : s.Later goals t)
    (hv : s.values.lookup id = some v) : t.values.lookup id = some v := by
  induction h with
  | same => exact hv
  | call _ hc ih =>
    obtain ⟨_, _, _, _, hcompile, hnext⟩ := hc.cases
    obtain ⟨_, _, _, _, rfl⟩ := compile_outcome hcompile
    rcases hnext with rfl | ⟨_, plan, u, _, hn, rfl⟩
    · exact ih
    · have hne : id ≠ plan.proof.id := by
        rintro rfl
        cases hn.symm.trans ih
      simpa [List.lookup_cons, beq_eq_false_iff_ne.mpr hne] using ih

/-- No value comes to be kept for the proof of a goal that no value is asked for. -/
theorem Later.lookup_none (hi : catalog.Indexed) (hs : Session catalog policy past s) {p : Proof}
    (hp : s.known.ledger.get? goal = some (.resolved p)) (hv : s.values.lookup p.id = none)
    (h : s.Later goals t) (hgoal : goal ∉ goals) : t.values.lookup p.id = none := by
  induction h with
  | same => exact hv
  | @call goals asked mid next hl hc ih =>
    have hbefore := ih fun hm => hgoal (List.mem_append_left _ hm)
    obtain ⟨_, hsession⟩ := (Later.call hl hc).session hs
    have hknown := (Later.call hl hc).settled hs hp
    obtain ⟨hown, hrun⟩ := hsession.learnt.2.2.runnable hi hknown
    obtain ⟨_, hmid⟩ := hl.session hs
    obtain ⟨budget, other, answer, after, hcompile, hnext⟩ := hc.cases
    have hvalues : after.values = mid.values := by
      obtain ⟨_, _, _, _, rfl⟩ := compile_outcome hcompile
      rfl
    rcases hnext with rfl | ⟨rfl, plan, u, rfl, hn, rfl⟩
    · rwa [hvalues]
    · -- Two goals have different proofs, and those have different numbers.
      have hresolved := (compile_resolved hmid.learnt.2.2.clean.aligned hcompile).2
      obtain ⟨hother, hrun'⟩ := hsession.learnt.2.2.runnable hi hresolved
      have hne : p.id ≠ plan.proof.id := by
        intro he
        have hrecorded : after.known.table.get? p.id = some plan.proof := he ▸ hrun'.recorded
        obtain rfl := Option.some.inj (hrun.recorded.symm.trans hrecorded)
        exact hgoal (List.mem_append_right _ (by simp [← hown, ← hother]))
      simpa [List.lookup_cons, beq_eq_false_iff_ne.mpr hne, hvalues] using hbefore

theorem Seeks.compiled (hs : Session catalog policy past s) (h : s.Seeks goal answer next) :
    (∃ past', Session catalog policy past' next) ∧
      ∃ budget mid, s.compile budget goal = some (answer, mid) ∧ next.known = mid.known := by
  have known : ∀ {S : Type} {handles : RuleId → Handle V S} {w w' : Workshop V S} {value budget mid},
      s.compile budget goal = some (answer, mid) →
      s.resolve handles budget goal w = some (value, next, w') → next.known = mid.known := by
    intro S handles w w' value budget mid hc hr
    obtain ⟨_, mid', hc', hnext⟩ := (resolution hr).cases
    cases hc.symm.trans hc'
    rcases hnext with rfl | ⟨_, _, _, _, rfl⟩ <;> rfl
  cases h with
  | compile hc => exact ⟨⟨_, hs.compile hc⟩, _, _, hc, rfl⟩
  | resolve hc hr => exact ⟨⟨_, hs.resolve hr⟩, _, _, hc, known hc hr⟩
  | resolveAs hc hr =>
    obtain ⟨_, hvalue⟩ := resolveAs_resolve hr
    exact ⟨⟨_, hs.resolveAs hr⟩, _, _, hc, known hc hvalue⟩

theorem compile_of_prove {outcome : Outcome} {known : Knowledge}
    (hp : t.known.prove t.catalog t.policy budget goal = some (outcome, known)) :
    t.compile budget goal = some (outcome.map (Plan.mk known.table), { t with known := known }) := by
  unfold compile
  rw [hp]
  cases outcome <;> rfl

/-- What a call found is found by each later call, which counts a hit and changes nothing else. -/
theorem compile_again (hs : Session catalog policy past s) (hground : goal.isGround = true)
    (h : s.Seeks goal answer next) (hd : ∀ f, answer = .error f → f.isDepthExceeded = false)
    (hl : next.Later goals t) (budget : Nat) :
    ∃ again, t.compile budget goal = some (again, t.hit) ∧
      again.map Plan.proof = answer.map Plan.proof := by
  obtain ⟨⟨_, hnext⟩, budget', mid, hc, hknown⟩ := h.compiled hs
  obtain ⟨hcatalog, hpolicy, hlearnt⟩ := hs.learnt
  obtain ⟨outcome, known, hp, rfl, rfl⟩ := compile_outcome hc
  rw [hcatalog, hpolicy] at hp
  have hout : outcome.isDepthExceeded = false := by
    cases outcome with
    | ok p => rfl
    | error f => exact hd f rfl
  obtain ⟨state, hstate, hagain⟩ := Knowledge.prove_again hlearnt.clean.aligned hground hp hout
  have hresult : next.known = known := hknown
  have hlater := hl.settled hnext (hresult ▸ hstate)
  obtain ⟨_, ht⟩ := hl.session hnext
  have hprove := hagain t.known hlater budget
  rw [← ht.learnt.1, ← ht.learnt.2.1] at hprove
  refine ⟨_, compile_of_prove hprove, ?_⟩
  cases outcome <;> rfl

theorem compile_ground {plan : Plan} (hc : s.compile budget goal = some (.ok plan, next)) :
    goal.isGround = true := by
  obtain ⟨outcome, known, hp, he, _⟩ := compile_outcome hc
  by_contra hn
  have hrefused : s.known.prove s.catalog s.policy budget goal =
      some (.error (.nonGroundGoal goal), s.known) := by simp [Knowledge.prove, hn]
  cases hrefused.symm.trans hp
  cases he

theorem compile_ne_invocation (hs : Session catalog policy past s) {f : Failure}
    (hc : s.compile budget goal = some (.error f, next)) (g : Term) (rule : String)
    (source : InvocationError) : f ≠ .invocation g rule source := by
  rintro rfl
  obtain ⟨outcome, known, hp, he, rfl⟩ := compile_outcome hc
  have hnext := (hs.compile hc).learnt.2.2.clean
  cases outcome with
  | ok p => cases he
  | error f =>
    cases he
    rcases Knowledge.prove_answered hs.learnt.2.2.clean.aligned hp with ⟨_, h⟩ | h | h
    · cases h
    · cases h
    · cases h with
      | failed hf hshows => cases hshows.isConclusion.trans (hnext.concluded goal _ hf)

/-- A value that a call gave is given by each later one, without the help of any handle. -/
theorem resolve_again {S : Type} {handles : RuleId → Handle V S} {w w' : Workshop V S} {v : V}
    (hs : Session catalog policy past s)
    (h : s.resolve handles budget goal w = some (.ok v, next, w')) (hl : next.Later goals t)
    {S' : Type} (handles' : RuleId → Handle V S') (budget' : Nat) (w₁ : Workshop V S') :
    t.resolve handles' budget' goal w₁ = some (.ok v, t.hit, w₁) := by
  obtain ⟨plan, mid, hc, hkept⟩ : ∃ plan mid, s.compile budget goal = some (.ok plan, mid) ∧
      next.values.lookup plan.proof.id = some v := by
    cases resolution h with
    | recalled hc hv => exact ⟨_, _, hc, hv⟩
    | built hc _ _ => exact ⟨_, _, hc, List.lookup_cons_self⟩
  obtain ⟨again, hagain, hsame⟩ :=
    compile_again hs (compile_ground hc) (.resolve hc h) (by simp) hl budget'
  have hlookup : t.hit.values.lookup plan.proof.id = some v := hl.lookup hkept
  cases again with
  | error f => cases hsame
  | ok plan' =>
    have hproof : plan'.proof = plan.proof := Except.ok.inj hsame
    rw [← hproof] at hlookup
    unfold resolve
    simp only [hagain, hlookup]

/-- The value of a recorded proof is built the same way from any later state of the proofs. -/
theorem invoke_later {plan plan' : Plan} (hrun : plan.Runnable catalog)
    (he : plan.table.Extends plan'.table) (hproof : plan'.proof = plan.proof) {S : Type}
    (handles : RuleId → Handle V S) (w : Workshop V S) :
    plan'.invoke handles w = plan.invoke handles w := by
  obtain ⟨built, hbuilt, _⟩ := hrun.build handles w
  have hroom : plan.nesting ≤ plan'.nesting :=
    Nat.mul_le_mul (Nat.succ_le_succ he.size) (Nat.succ_le_succ he.size)
  rw [hbuilt, Plan.invoke, hproof]
  exact Proof.build_extends he hroom hrun.whole hbuilt

/-- A value that is not kept for the proof that a call finds is built from it. -/
theorem resolve_of_compile {S : Type} {handles : RuleId → Handle V S} {w : Workshop V S}
    {plan : Plan} (hc : s.compile budget goal = some (.ok plan, next))
    (hv : next.values.lookup plan.proof.id = none) :
    s.resolve handles budget goal w = (plan.invoke handles w).map fun built =>
      (built.1, next.store plan.proof.id built.1, built.2) := by
  unfold resolve
  simp only [hc, hv]
  cases plan.invoke handles w with
  | none => rfl
  | some built =>
    obtain ⟨value, w'⟩ := built
    cases value <;> rfl

/-- A call for a value that some handle refused to give keeps nothing, so that the next call for it
runs the handles on the same proof. -/
theorem resolve_anew (hi : catalog.Indexed) {S : Type} {handles : RuleId → Handle V S}
    {w w' : Workshop V S} {g : Term} {rule : String} {source : InvocationError}
    (hs : Session catalog policy past s)
    (h : s.resolve handles budget goal w = some (.error (.invocation g rule source), next, w')) :
    ∃ plan, s.compile budget goal = some (.ok plan, next) ∧ next.values = s.values ∧
      ∀ goals t, next.Later goals t → goal ∉ goals →
        ∀ {S' : Type} (handles' : RuleId → Handle V S') (budget' : Nat) (w₁ : Workshop V S'),
          t.resolve handles' budget' goal w₁ = (plan.invoke handles' w₁).map fun built =>
            (built.1, t.hit.store plan.proof.id built.1, built.2) := by
  obtain ⟨plan, hc, hn⟩ : ∃ plan, s.compile budget goal = some (.ok plan, next) ∧
      next.values.lookup plan.proof.id = none := by
    cases resolution h with
    | failed hc => exact absurd rfl (compile_ne_invocation hs hc g rule source)
    | broken hc hn _ => exact ⟨_, hc, hn⟩
  have hvalues : next.values = s.values := by
    obtain ⟨_, _, _, _, rfl⟩ := compile_outcome hc
    rfl
  refine ⟨plan, hc, hvalues, fun goals t hl hgoal S' handles' budget' w₁ => ?_⟩
  have hnext := hs.compile hc
  obtain ⟨htable, hresolved⟩ := compile_resolved hs.learnt.2.2.clean.aligned hc
  have hrun : plan.Runnable catalog := by
    have hrunnable := (hnext.learnt.2.2.runnable hi hresolved).2
    rwa [← htable] at hrunnable
  obtain ⟨again, hagain, hsame⟩ :=
    compile_again hs (compile_ground hc) (.compile hc) (by simp) hl budget'
  have hlookup : t.hit.values.lookup plan.proof.id = none :=
    show t.values.lookup plan.proof.id = none from hl.lookup_none hi hnext hresolved hn hgoal
  cases again with
  | error f => cases hsame
  | ok plan' =>
    have hproof : plan'.proof = plan.proof := Except.ok.inj hsame
    obtain ⟨_, ht⟩ := hl.session hnext
    have htable' : plan'.table = t.known.table :=
      (compile_resolved ht.learnt.2.2.clean.aligned hagain).1
    have hextends : plan.table.Extends plan'.table := by
      rw [htable, htable']
      exact hl.grown hi hnext
    rw [← hproof] at hlookup
    rw [resolve_of_compile hagain hlookup, invoke_later hrun hextends hproof handles' w₁, hproof]

end

end Prover

/-- Answers are stable until a reset. What a call found, or the failure it gave that is not due to
the depth bound, comes back from each later call, which counts one hit and changes nothing else. A
value that was given is given again without running a handle. A value that a handle refused to give
leaves nothing behind, and the next call for it runs the handles on the same proof. -/
theorem answers_stable {clauses : List (String × Clause)} {catalog : Catalog} {policy : Policy}
    {V : Type} {past : List Search} {s : Prover V} (hb : Catalog.build clauses = .ok catalog)
    (hs : Session catalog policy past s) :
    (∀ goal answer next, goal.isGround = true → s.Seeks goal answer next →
      (∀ f, answer = .error f → f.isDepthExceeded = false) →
      ∀ goals t, next.Later goals t → ∀ budget, ∃ again,
        t.compile budget goal = some (again, t.hit) ∧
          again.map Plan.proof = answer.map Plan.proof) ∧
    (∀ {S : Type} (handles : RuleId → Handle V S) budget goal w v next w',
      s.resolve handles budget goal w = some (.ok v, next, w') →
      ∀ goals t, next.Later goals t →
        ∀ {S' : Type} (handles' : RuleId → Handle V S') budget' (w₁ : Workshop V S'),
          t.resolve handles' budget' goal w₁ = some (.ok v, t.hit, w₁)) ∧
    (∀ {S : Type} (handles : RuleId → Handle V S) budget goal w g rule source next w',
      s.resolve handles budget goal w = some (.error (.invocation g rule source), next, w') →
      ∃ plan, s.compile budget goal = some (.ok plan, next) ∧ next.values = s.values ∧
        ∀ goals t, next.Later goals t → goal ∉ goals →
          ∀ {S' : Type} (handles' : RuleId → Handle V S') budget' (w₁ : Workshop V S'),
            t.resolve handles' budget' goal w₁ = (plan.invoke handles' w₁).map fun built =>
              (built.1, t.hit.store plan.proof.id built.1, built.2)) := by
  have hi := Catalog.build_indexed hb
  refine ⟨?_, ?_, ?_⟩
  · intro goal answer next hground h hd goals t hl budget
    exact Prover.compile_again hs hground h hd hl budget
  · intro S handles budget goal w v next w' h goals t hl S' handles' budget' w₁
    exact Prover.resolve_again hs h hl handles' budget' w₁
  · intro S handles budget goal w g rule source next w' h
    exact Prover.resolve_anew hi hs h

theorem knot_value_again : ∃ v next w',
    (Prover.start knotCatalog Policy.default : Prover Nat).resolve countInputs 9 (.const "Edge")
      ⟨#[], 0⟩ = some (.ok v, next, w') ∧
    ∀ {S : Type} (handles : RuleId → Handle Nat S) budget (w : Workshop Nat S),
      next.resolve handles budget (.const "Edge") w = some (.ok v, next.hit, w) := by
  have hok : ((Prover.start knotCatalog Policy.default : Prover Nat).resolve countInputs 9
      (.const "Edge") ⟨#[], 0⟩).any (fun a => a.1.isOk) = true := by decide +kernel
  obtain ⟨⟨answer, next, w'⟩, h, ha⟩ := Option.any_eq_true _ _ |>.mp hok
  cases answer with
  | error f => cases ha
  | ok v =>
    have hb : Catalog.build knot = .ok knotCatalog := by decide
    have hs : Session knotCatalog Policy.default [] (.start knotCatalog Policy.default) :=
      .start (V := Nat)
    obtain ⟨_, again, _⟩ := answers_stable hb hs
    exact ⟨v, next, w', h, again countInputs 9 _ _ v next w' h [] next .same⟩

end Clausal
