import Clausal.Proofs.Ending
import Clausal.Proofs.Stability

namespace Clausal

/-- A policy that differs from another by its depth bound only, and admits whatever that one
admits. -/
structure Policy.Loosens (loose policy : Policy) : Prop where
  tieBreak : loose.tieBreak = policy.tieBreak
  admits : ∀ chain goal, policy.refusal? chain goal = none → loose.refusal? chain goal = none

theorem Policy.loosens {limit : Nat} {bound : Option Nat} (tie : TieBreak)
    (h : ∀ m, bound = some m → limit ≤ m) : Loosens ⟨bound, tie⟩ ⟨some limit, tie⟩ where
  tieBreak := rfl
  admits chain goal hadmitted := by
    have hn : (⟨some limit, tie⟩ : Policy).maxDepth = some limit := rfl
    have hroom := (refusal?_eq_none hn).mp hadmitted
    cases bound with
    | none => rfl
    | some m =>
      have hm := h m rfl
      have hloose : (⟨some m, tie⟩ : Policy).maxDepth = some m := rfl
      exact (refusal?_eq_none hloose).mpr (by omega)

/-- Two policies of the same tie-break choose alike. -/
theorem Frame.outcome_congr {policy loose : Policy} (h : loose.tieBreak = policy.tieBreak)
    (f : Frame) (chain : GoalChain) : f.outcome loose chain = f.outcome policy chain := by
  unfold outcome Policy.choose?
  rw [h]

/-- A requirement sees the failure that the search for its goal came to. -/
theorem Outcome.of_asLink {outcome : Outcome} {cause : Failure}
    (h : outcome.asLink = .error (.failed cause)) : outcome = .error cause := by
  cases outcome <;> cases h
  rfl

/-- The frame has tried a rule in vain for the given failure of a requirement. -/
def Frame.Blames (f : Frame) (cause : Failure) : Prop :=
  ∃ a ∈ f.attempted, a.cause? = some cause

theorem Frame.isCut_iff_blames {f : Frame} :
    f.IsCut ↔ ∃ cause, f.Blames cause ∧ cause.isDepthExceeded = true := by
  rw [isCut_iff]
  constructor
  · rintro ⟨a, ha, cause, hc, hd⟩
    exact ⟨cause, ⟨a, ha, hc⟩, hd⟩
  · rintro ⟨cause, ⟨a, ha, hc⟩, hd⟩
    exact ⟨a, ha, cause, hc, hd⟩

/-- Some frame of the stack blames the failure. -/
def Blamed (frames : List Frame) (cause : Failure) : Prop :=
  ∃ f ∈ frames, f.Blames cause

theorem blamed_concat {below : List Frame} {top : Frame} {cause : Failure} :
    Blamed (below ++ [top]) cause ↔ Blamed below cause ∨ top.Blames cause := by
  simp [Blamed, or_and_right, exists_or]

theorem Blamed.of_attempted {frames frames' : List Frame} {cause : Failure}
    (hb : Blamed frames' cause)
    (h : ∀ f ∈ frames', ∃ f₀ ∈ frames, f.attempted = f₀.attempted) : Blamed frames cause := by
  obtain ⟨f, hf, a, ha, hc⟩ := hb
  obtain ⟨f₀, hf₀, he⟩ := h f hf
  exact ⟨f₀, hf₀, a, he ▸ ha, hc⟩

/-- An answer to a requirement only gives a frame the failure to blame that it holds. -/
theorem Frame.receive_blames {f : Frame} {goal : Term} {answer : Except Blocked Link} {low : Nat}
    {cause : Failure} (h : (f.receive goal answer low).Blames cause) :
    f.Blames cause ∨ answer = .error (.failed cause) := by
  obtain ⟨a, ha, hc⟩ := h
  cases ht : f.trial with
  | none =>
    simp only [receive, ht] at ha
    exact .inl ⟨a, ha, hc⟩
  | some t =>
    cases answer with
    | ok link =>
      simp only [receive, ht] at ha
      exact .inl ⟨a, ha, hc⟩
    | error blocked =>
      cases blocked with
      | cycle =>
        simp only [receive, ht, giveUp, List.mem_append, List.mem_singleton] at ha
        rcases ha with ha | rfl
        · exact .inl ⟨a, ha, hc⟩
        · cases hc
      | failed failure =>
        simp only [receive, ht, giveUp, List.mem_append, List.mem_singleton] at ha
        rcases ha with ha | rfl
        · exact .inl ⟨a, ha, hc⟩
        · cases hc
          exact .inr rfl

/-- A frame that gets on has an attempt that it had, or one that ends at the head or at a variable, or
one that ends by the answer to a requirement. -/
theorem Frame.Progress.attempts {states : States} {depth : Nat} {top top' : Frame} {a : Attempt}
    (h : top.Progress states depth top') (ha : a ∈ top'.attempted) :
    a ∈ top.attempted ∨ a.cause? = none ∧ a.cycleGoal? = none ∨
      ∃ t r goal low, top.trial = some t ∧ t.next? = some r ∧ t.subst.apply r.pattern = .ok goal ∧
        (a = .cycle t.rule.name t.edges.length goal ∧
            Answers states depth r goal (.error .cycle) low ∨
          ∃ cause, a = .subgoal t.rule.name t.edges.length goal cause ∧
            Answers states depth r goal (.error (.failed cause)) low) := by
  cases h with
  | tried ht hr =>
    unfold tryRule at ha
    split at ha
    · exact .inl ha
    · rcases List.mem_append.mp ha with ha | ha
      · exact .inl ha
      · rw [List.mem_singleton.mp ha]
        exact .inr (.inl ⟨rfl, rfl⟩)
  | succeeded ht hn => exact .inl ha
  | unbound ht hr hv =>
    rcases List.mem_append.mp ha with ha | ha
    · exact .inl ha
    · rw [List.mem_singleton.mp ha]
      exact .inr (.inl ⟨rfl, rfl⟩)
  | @received t r goal answer low ht hr happ hans =>
    simp only [receive, ht] at ha
    cases answer with
    | ok link => exact .inl ha
    | error blocked =>
      cases blocked with
      | cycle =>
        rcases List.mem_append.mp ha with ha | ha
        · exact .inl ha
        · exact .inr (.inr ⟨t, r, goal, low, ht, hr, happ, .inl ⟨List.mem_singleton.mp ha, hans⟩⟩)
      | failed cause =>
        rcases List.mem_append.mp ha with ha | ha
        · exact .inl ha
        · exact .inr (.inr ⟨t, r, goal, low, ht, hr, happ,
            .inr ⟨cause, List.mem_singleton.mp ha, hans⟩⟩)

/-- A frame that gets on blames what it blamed, or the failure that answers a requirement. -/
theorem Frame.Progress.blames {states : States} {depth : Nat} {top top' : Frame} {cause : Failure}
    (h : top.Progress states depth top') (hb : top'.Blames cause) :
    top.Blames cause ∨ ∃ t r goal low, top.trial = some t ∧ t.next? = some r ∧
      t.subst.apply r.pattern = .ok goal ∧
        Answers states depth r goal (.error (.failed cause)) low := by
  obtain ⟨a, ha, hc⟩ := hb
  rcases h.attempts ha with hold | ⟨hn, _⟩ | ⟨t, r, goal, low, ht, hr, happ, ⟨rfl, _⟩ |
    ⟨failure, rfl, hans⟩⟩
  · exact .inl ⟨a, hold, hc⟩
  · cases hn.symm.trans hc
  · cases hc
  · cases hc
    exact .inr ⟨t, r, goal, low, ht, hr, happ, hans⟩

/-- What is stored is never due to the depth bound, so that such an answer is not from memory. -/
theorem Answers.unknown {states : States} {depth low : Nat} {r : Requirement} {goal : Term}
    {cause : Failure} (hconcl : ∀ g state, states g = some state → state.Concluded)
    (h : Answers states depth r goal (.error (.failed cause)) low)
    (hd : cause.isDepthExceeded = true) : states goal = none := by
  have stored : ∀ f : Failure, f.isConclusion = true → f.Shows cause → False := by
    intro f hf hshows
    have hcause : cause.isConclusion = true := hshows.isConclusion.trans hf
    rw [Failure.not_isDepthExceeded_of_isConclusion hcause] at hd
    cases hd
  cases h with
  | provisionalFailure hg hshows => exact (stored _ (hconcl _ _ hg) hshows).elim
  | failed hg hshows _ => exact (stored _ (hconcl _ _ hg) hshows).elim
  | cut hg _ => exact hg

namespace Search

variable {catalog : Catalog} {policy loose : Policy} {s next : Search}

/-- The goal of the requirement that the rule on trial meets next. -/
def asks? (s : Search) : Option Term := do
  let t ← s.top.trial
  let r ← t.next?
  (t.subst.apply r.pattern).toOption

theorem asks?_eq_some {goal : Term} : s.asks? = some goal ↔
    ∃ t r, s.top.trial = some t ∧ t.next? = some r ∧ t.subst.apply r.pattern = .ok goal := by
  have hok : ∀ t : Trial, ∀ r : Requirement, (t.subst.apply r.pattern).toOption = some goal ↔
      t.subst.apply r.pattern = .ok goal := by
    intro t r
    cases t.subst.apply r.pattern <;> simp [Except.toOption]
  simp only [asks?, Option.bind_eq_bind, Option.bind_eq_some_iff, hok]
  constructor
  · rintro ⟨t, ht, r, hr, ha⟩
    exact ⟨t, r, ht, hr, ha⟩
  · rintro ⟨t, r, ht, hr, ha⟩
    exact ⟨t, ht, r, hr, ha⟩

/-- The search asks for a goal of which nothing is known, and the depth bound does not admit it. -/
structure Refuses (policy : Policy) (s : Search) (goal : Term) (failure : Failure) : Prop where
  asked : s.asks? = some goal
  unknown : s.ledger.get? goal = none
  refused : policy.refusal? s.chain goal = some failure

/-- A goal that is refused fails at once, as its requirement sees it. -/
theorem Refuses.step {goal : Term} {failure : Failure} (h : s.Refuses policy goal failure) :
    s.step catalog policy = .running (({ s with ledger := s.ledger.miss } : Search).receive goal
      (.error (.failed failure)) (s.depth + 1)) := by
  obtain ⟨t, r, ht, hr, ha⟩ := asks?_eq_some.mp h.asked
  simp only [Search.step, ht, hr, meet, ha, answer?, h.unknown, descend, h.refused]

theorem Refuses.isCut {goal : Term} {failure : Failure} (h : s.Refuses policy goal failure)
    (hs : s.step catalog policy = .running next) : next.top.IsCut := by
  obtain ⟨t, r, ht, _, _⟩ := asks?_eq_some.mp h.asked
  have hd := Policy.refusal?_isDepthExceeded h.refused
  rw [h.step] at hs
  cases hs
  exact Frame.receive_cut ht hd

theorem step_of_admitted {goal : Term} (hasked : s.asks? = some goal)
    (hunknown : s.ledger.get? goal = none) (hadmitted : policy.refusal? s.chain goal = none) :
    s.step catalog policy = .running
      (push catalog { s.toKnowledge with ledger := s.ledger.miss } s.stack goal) := by
  obtain ⟨t, r, ht, hr, ha⟩ := asks?_eq_some.mp hasked
  simp only [Search.step, ht, hr, meet, ha, answer?, hunknown, descend, hadmitted]

theorem unknown_of_answer? {goal : Term} {deferrable : Bool}
    (h : s.answer? goal deferrable = none) : s.ledger.get? goal = none := by
  unfold answer? at h
  split at h
  · assumption
  · split at h <;> cases h
  all_goals cases h

/-- Where a search refuses no goal, it takes the same step under a looser bound. -/
theorem step_congr (hl : loose.Loosens policy)
    (h : ∀ goal failure, ¬s.Refuses policy goal failure) :
    s.step catalog loose = s.step catalog policy := by
  have hclose : s.closeTop loose = s.closeTop policy := by
    unfold closeTop
    rw [Frame.outcome_congr hl.tieBreak]
  unfold step
  split
  next t ht =>
    split
    next r hr =>
      congr 1
      unfold meet
      cases ha : t.subst.apply r.pattern with
      | error v => rfl
      | ok goal =>
        dsimp only
        cases hans : s.answer? goal r.deferrable with
        | some answer => rfl
        | none =>
          have hunknown : s.ledger.get? goal = none := unknown_of_answer? hans
          cases hrefusal : policy.refusal? s.chain goal with
          | some failure =>
            have hasked : s.asks? = some goal := asks?_eq_some.mpr ⟨t, r, ht, hr, ha⟩
            exact absurd ⟨hasked, hunknown, hrefusal⟩ (h goal failure)
          | none =>
            unfold descend
            rw [hrefusal, hl.admits _ _ hrefusal]
    next => rfl
  next => rw [hclose]

/-- A cut reaches all the frames below: it goes on from frame to frame as they close. -/
theorem cutFrom_running (ha : Aligned s.stack s.ledger.get?) (hc : CutFrom s.stack 0)
    (hs : s.step catalog policy = .running next) : CutFrom next.stack 0 := by
  rcases running_cases hs with ⟨_, _, top, hp, hst⟩ | ⟨_, _, goal, _, _, _, _, _, rfl⟩ |
    ⟨_, _, hcl⟩
  · have hcut : CutFrom (s.below ++ [top]) 0 := hc.progress hp
    rcases hst with hst | ⟨j, hst⟩
    · rw [hst]
      exact hcut
    · rw [hst]
      exact hcut.refer
  · exact hc.concat
  · cases closes ha hcl with
    | @kept parent hn ho hk hl hp =>
      have hkept : CutFrom (s.keep (s.verdict policy)).2 0 := by
        by_contra hcut
        exact not_cutFrom_stack ho hn hcut hc
      have hlower : CutFrom ((s.keep (s.verdict policy)).2.modify next.below.length
          (Frame.lower s.top.low)) 0 := hkept.lower
      rw [hk, modify_last] at hlower
      exact hlower.progress hp
    | cut _ _ _ _ _ hcut _ _ => exact hcut.cutFrom (Nat.zero_le _)

theorem keep_attempted (s : Search) (outcome : Outcome) :
    ∀ f ∈ (s.keep outcome).2, ∃ f₀ ∈ s.stack, f.attempted = f₀.attempted := by
  intro f hf
  obtain ⟨i, hi⟩ := List.mem_iff_getElem?.mp hf
  by_cases ho : outcome.isDepthExceeded = true
  · rw [keep_of_cut ho] at hf
    exact ⟨f, List.mem_append_left _ hf, rfl⟩
  · obtain ⟨f₀, hf₀, _, _, _, _, _, _, _, hattempted⟩ := keep_frames_same (by simpa using ho) hi
    exact ⟨f₀, List.mem_of_getElem? hf₀, hattempted⟩

/-- The depth failure of a frame is one that the frame blames. -/
theorem blames_of_verdict {cause : Failure} (hv : s.verdict policy = .error cause)
    (hd : cause.isDepthExceeded = true) : s.top.Blames cause := by
  rcases s.top.outcome_cases policy (s.below.map Frame.goal) with
    ⟨failure, hcut, _, ho⟩ | ⟨_, _, ho⟩ | ⟨_, _, _, ho⟩ | ⟨_, _, _, ho⟩
  · obtain rfl : failure = cause := by simpa using ho.symm.trans hv
    obtain ⟨a, ha, hc⟩ := List.mem_filterMap.mp (List.mem_of_find?_eq_some hcut)
    exact ⟨a, ha, hc⟩
  · cases ho.symm.trans hv
    rw [unproved_isDepthExceeded] at hd
    cases hd
  · cases ho.symm.trans hv
    cases hd
  · cases ho.symm.trans hv

theorem blamed_refused {goal : Term} {failure cause : Failure} (hr : s.Refuses policy goal failure)
    (hs : s.step catalog policy = .running next) (hb : Blamed next.stack cause) :
    Blamed s.stack cause ∨ s.Refuses policy goal cause := by
  cases hr.step.symm.trans hs
  rcases blamed_concat.mp hb with hb | hb
  · exact .inl (blamed_concat.mpr (.inl hb))
  · rcases Frame.receive_blames hb with hb | hanswer
    · exact .inl (blamed_concat.mpr (.inr hb))
    · cases hanswer
      exact .inr hr

/-- A goal that is asked for and not refused is known, or gets a frame of its own. -/
theorem known_of_asked {goal : Term} (hasked : s.asks? = some goal)
    (hrefuses : ¬∃ goal failure, s.Refuses policy goal failure)
    (hs : s.step catalog policy = .running next) (hlen : next.stack.length = s.stack.length) :
    s.ledger.get? goal ≠ none := by
  intro hunknown
  have hadmitted : policy.refusal? s.chain goal = none := by
    by_contra hn
    obtain ⟨failure, hrefusal⟩ := Option.ne_none_iff_exists'.mp hn
    exact hrefuses ⟨goal, failure, hasked, hunknown, hrefusal⟩
  cases (step_of_admitted hasked hunknown hadmitted).symm.trans hs
  have hpushed : s.stack.length = s.stack.length + 1 := hlen.symm.trans (stack_length _)
  omega

theorem blamed_progress {top : Frame} {cause : Failure}
    (hconcl : ∀ g state, s.ledger.get? g = some state → state.Concluded)
    (hrefuses : ¬∃ goal failure, s.Refuses policy goal failure)
    (hs : s.step catalog policy = .running next) (hp : s.top.Progress s.ledger.get? s.depth top)
    (hst : next.stack = s.below ++ [top] ∨
      ∃ j, next.stack = (s.below ++ [top]).modify j Frame.refer)
    (hb : Blamed next.stack cause) (hd : cause.isDepthExceeded = true) : Blamed s.stack cause := by
  have hmoved : Blamed (s.below ++ [top]) cause := by
    rcases hst with hst | ⟨j, hst⟩
    · rw [← hst]
      exact hb
    · refine hb.of_attempted fun f hf => ?_
      obtain ⟨i, hi⟩ := List.mem_iff_getElem?.mp (hst ▸ hf)
      obtain ⟨f₀, hf₀, he⟩ := getElem?_refer hi
      exact ⟨f₀, List.mem_of_getElem? hf₀, he.attempted⟩
  have hlen : next.stack.length = s.stack.length := by
    rcases hst with hst | ⟨j, hst⟩ <;> rw [hst] <;> simp [stack]
  rcases blamed_concat.mp hmoved with hb | hb
  · exact blamed_concat.mpr (.inl hb)
  · rcases hp.blames hb with hb | ⟨t, r, goal, low, ht, hr, ha, hans⟩
    · exact blamed_concat.mpr (.inr hb)
    · have hasked : s.asks? = some goal := asks?_eq_some.mpr ⟨t, r, ht, hr, ha⟩
      have hunknown : s.ledger.get? goal = none := hans.unknown hconcl hd
      exact absurd hunknown (known_of_asked hasked hrefuses hs hlen)

theorem blamed_closeTop {cause : Failure} (hcl : s.closeTop policy = .running next)
    (hb : Blamed next.stack cause) (hd : cause.isDepthExceeded = true) : Blamed s.stack cause := by
  obtain ⟨parent, hk, _, _, htop⟩ := closeTop_running hcl
  have hkept : Blamed (next.below ++ [parent]) cause → Blamed s.stack cause := by
    rw [← hk]
    exact fun h => h.of_attempted (s.keep_attempted (s.verdict policy))
  rcases blamed_concat.mp hb with hb | hb
  · exact hkept (blamed_concat.mpr (.inl hb))
  · rw [htop] at hb
    rcases Frame.receive_blames hb with hb | hanswer
    · exact hkept (blamed_concat.mpr (.inr hb))
    · have hv : s.verdict policy = .error cause := Outcome.of_asLink hanswer
      exact blamed_concat.mpr (.inr (blames_of_verdict hv hd))

/-- A depth failure that some frame blames was blamed before, or is the refusal of a goal. -/
theorem blamed_running (hconcl : ∀ g state, s.ledger.get? g = some state → state.Concluded)
    (hs : s.step catalog policy = .running next) {cause : Failure} (hb : Blamed next.stack cause)
    (hd : cause.isDepthExceeded = true) :
    Blamed s.stack cause ∨ ∃ goal, s.Refuses policy goal cause := by
  by_cases hrefuses : ∃ goal failure, s.Refuses policy goal failure
  · obtain ⟨goal, failure, hr⟩ := hrefuses
    exact (blamed_refused hr hs hb).imp_right fun h => ⟨goal, h⟩
  · left
    rcases running_cases hs with ⟨_, _, top, hp, hst⟩ | ⟨_, _, goal, _, _, _, _, _, rfl⟩ |
      ⟨_, _, hcl⟩
    · exact blamed_progress hconcl hrefuses hs hp hst hb hd
    · rcases blamed_concat.mp hb with hb | ⟨a, ha, _⟩
      · exact hb
      · cases ha
    · exact blamed_closeTop hcl hb hd

/-- A search that was cut somewhere ends by a failure that tells so. -/
theorem run_of_cutFrom {budget : Nat} {outcome : Outcome} {known : Knowledge}
    (ha : Aligned s.stack s.ledger.get?) (hc : CutFrom s.stack 0)
    (h : s.run catalog policy budget = some (outcome, known)) : outcome.isDepthExceeded = true := by
  obtain ⟨_, last, _, ⟨_, hcut⟩, hstep⟩ := run_finished []
    (S := fun _ s => Aligned s.stack s.ledger.get? ∧ CutFrom s.stack 0)
    (fun hs hn => ⟨aligned_running hs.1 hn, cutFrom_running hs.1 hs.2 hn⟩) ⟨ha, hc⟩ h
  obtain ⟨_, _, hcl⟩ := finished_cases hstep
  obtain ⟨hb, rfl, _, _⟩ := closeTop_finished hcl
  obtain ⟨j, f, _, hf, hfcut⟩ := hcut
  rw [stack, hb] at hf
  rcases getElem?_concat_cases hf with ⟨hj, _⟩ | ⟨_, rfl⟩
  · cases hj
  · exact Frame.outcome_isDepthExceeded.mpr hfcut

/-- Once a goal is refused, the whole search fails for its depth. -/
theorem run_of_refused {budget budget' : Nat} {e : Search} {goal : Term} {failure : Failure}
    {outcome : Outcome} {known : Knowledge} (ha : Aligned s.stack s.ledger.get?)
    (he : e ∈ s.trace catalog policy budget) (hr : e.Refuses policy goal failure)
    (h : s.run catalog policy budget' = some (outcome, known)) : outcome.isDepthExceeded = true := by
  -- The run ends, so it gets past the state that refuses the goal, whatever its own budget.
  induction budget generalizing s budget' with
  | zero => cases he
  | succ budget ih =>
    cases budget' with
    | zero => cases h
    | succ budget' =>
      unfold run at h
      unfold trace at he
      cases hstep : s.step catalog policy with
      | finished o k =>
        rw [hstep] at he
        obtain rfl : e = s := by simpa using he
        cases hr.step.symm.trans hstep
      | running next =>
        rw [hstep] at he h
        have hnext := aligned_running ha hstep
        rcases List.mem_cons.mp he with rfl | he
        · have hcut : CutFrom next.stack 0 := (hr.isCut hstep).cutFrom (Nat.zero_le _)
          exact run_of_cutFrom hnext hcut h
        · exact ih hnext he h

/-- A search that does not fail for its depth goes the same way under a looser bound. -/
theorem run_congr (hl : loose.Loosens policy) {budget : Nat} {outcome : Outcome}
    {known : Knowledge} (ha : Aligned s.stack s.ledger.get?)
    (h : s.run catalog policy budget = some (outcome, known))
    (ho : outcome.isDepthExceeded = false) :
    s.run catalog loose budget = some (outcome, known) := by
  induction budget generalizing s with
  | zero => cases h
  | succ budget ih =>
    have hrefuses : ∀ goal failure, ¬s.Refuses policy goal failure := by
      intro goal failure hr
      have hmem : s ∈ s.trace catalog policy (budget + 1) := List.mem_cons_self
      rw [run_of_refused ha hmem hr h] at ho
      cases ho
    unfold run at h ⊢
    rw [step_congr hl hrefuses]
    cases hstep : s.step catalog policy with
    | finished o k =>
      rw [hstep] at h
      exact h
    | running next =>
      rw [hstep] at h
      exact ih (aligned_running ha hstep) h

end Search

namespace Knowledge

variable {catalog : Catalog} {policy loose : Policy} {known after : Knowledge} {goal : Term}
  {budget : Nat} {outcome : Outcome}

/-- No policy has a say in the answer for a goal of which something final is known. -/
theorem prove_of_known (policy loose : Policy) (budget : Nat)
    (hknown : goal.isGround = false ∨ (∃ p, known.ledger.get? goal = some (.resolved p)) ∨
      ∃ f, known.ledger.get? goal = some (.failed f)) :
    known.prove catalog loose budget goal = known.prove catalog policy budget goal := by
  unfold prove
  rcases hknown with hg | ⟨p, hp⟩ | ⟨f, hf⟩
  · simp [hg]
  · simp only [hp]
  · simp only [hf]

theorem prove_congr (hl : loose.Loosens policy) (ha : Aligned [] known.ledger.get?)
    (h : known.prove catalog policy budget goal = some (outcome, after))
    (ho : outcome.isDepthExceeded = false) :
    known.prove catalog loose budget goal = some (outcome, after) := by
  by_cases hknown : goal.isGround = false ∨ (∃ p, known.ledger.get? goal = some (.resolved p)) ∨
      ∃ f, known.ledger.get? goal = some (.failed f)
  · rw [prove_of_known policy loose budget hknown]
    exact h
  · push Not at hknown
    obtain ⟨hg, hr, hf⟩ := hknown
    have hground : goal.isGround = true := by simpa using hg
    cases hrefusal : policy.refusal? [] goal with
    | some failure =>
      rw [prove_unknown hground hr hf, hrefusal] at h
      cases h
      have hd : failure.isDepthExceeded = true := Policy.refusal?_isDepthExceeded hrefusal
      exact absurd (hd.symm.trans ho) (by decide)
    | none =>
      have hsearches : known.Searches policy goal := ⟨hground, hr, hf, hrefusal⟩
      have hloose : known.Searches loose goal := ⟨hground, hr, hf, hl.admits _ _ hrefusal⟩
      rw [hsearches.prove] at h
      rw [hloose.prove]
      exact Search.run_congr hl (hsearches.aligned ha) h ho

theorem prove_of_refused {e : Search} {sub : Term} {failure : Failure} {budget' : Nat}
    (ha : Aligned [] known.ledger.get?) (he : e ∈ known.trace catalog policy budget goal)
    (hr : e.Refuses policy sub failure)
    (h : known.prove catalog policy budget' goal = some (outcome, after)) :
    outcome.isDepthExceeded = true := by
  have hsearches := searches_of_mem_trace he
  rw [hsearches.trace] at he
  rw [hsearches.prove] at h
  exact Search.run_of_refused (hsearches.aligned ha) he hr h

end Knowledge

/-- The prover under another policy, with all that it has learnt. -/
def Prover.under {V : Type} (s : Prover V) (policy : Policy) : Prover V :=
  { s with policy := policy }

/-- The depth bound never changes an answer, it only withholds it. A call that does not fail for its
depth gives the same answer and learns the same under every larger bound and under none, and once
the bound keeps a single goal from being searched the whole call fails for its depth. -/
theorem bound_only_cuts {clauses : List (String × Clause)} {catalog : Catalog} {policy : Policy}
    {V : Type} {past : List Search} {s : Prover V} (hb : Catalog.build clauses = .ok catalog)
    (hs : Session catalog policy past s) (limit : Nat) (tie : TieBreak) (goal : Term) :
    (∀ budget answer next,
      (s.under ⟨some limit, tie⟩).compile budget goal = some (answer, next) →
      (∀ failure, answer = .error failure → failure.isDepthExceeded = false) →
      ∀ bound : Option Nat, (∀ m, bound = some m → limit ≤ m) →
        (s.under ⟨bound, tie⟩).compile budget goal =
          some (answer, next.under ⟨bound, tie⟩)) ∧
    ∀ budget, ∀ e ∈ s.known.trace catalog ⟨some limit, tie⟩ budget goal, ∀ sub failure,
      e.Refuses ⟨some limit, tie⟩ sub failure → ∀ budget', catalog.work ^ limit ≤ budget' →
        ∃ failure next, (s.under ⟨some limit, tie⟩).compile budget' goal =
          some (.error failure, next) ∧ failure.isDepthExceeded = true := by
  obtain ⟨hcatalog, _, hlearnt⟩ := hs.learnt
  have ha := hlearnt.clean.aligned
  constructor
  · intro budget answer next hc hd bound hbound
    obtain ⟨outcome, known, hp, rfl, rfl⟩ := Prover.compile_outcome hc
    have ho : outcome.isDepthExceeded = false := by
      cases outcome with
      | ok p => rfl
      | error failure => exact hd failure rfl
    exact Prover.compile_of_prove
      (Knowledge.prove_congr (Policy.loosens tie hbound) ha hp ho)
  · intro budget e he sub failure hr budget' hle
    have hends : (s.known.prove catalog ⟨some limit, tie⟩ budget' goal).isSome :=
      Knowledge.prove_isSome_of_maxDepth (Catalog.build_indexed hb) ha rfl hle
    obtain ⟨⟨outcome, known⟩, hp⟩ := Option.isSome_iff_exists.mp hends
    have ho := Knowledge.prove_of_refused ha he hr hp
    have hc := Prover.compile_of_prove (t := s.under ⟨some limit, tie⟩) (hcatalog ▸ hp)
    cases outcome with
    | ok p => cases ho
    | error failure => exact ⟨failure, _, hc, ho⟩

/-- A goal that needs a second one, which needs a third one. -/
def ladder : List (String × Clause) :=
  [("p", ⟨"roof", .const "Roof", [⟨.const "Wall", false⟩]⟩),
    ("p", ⟨"wall", .const "Wall", [⟨.const "Base", false⟩]⟩),
    ("p", ⟨"base", .const "Base", []⟩)]

def ladderCatalog : Catalog where
  rules := [⟨0, "p::roof", .const "Roof", [⟨.const "Wall", false⟩]⟩,
    ⟨1, "p::wall", .const "Wall", [⟨.const "Base", false⟩]⟩,
    ⟨2, "p::base", .const "Base", []⟩]
  index := [("Roof", [0]), ("Wall", [1]), ("Base", [2])]
  arities := [("Roof", 0), ("Wall", 0), ("Base", 0)]

/-- Three goals fit a bound of three, and under a bound of two the third one is refused. -/
theorem ladder_fits_three :
    (∃ plan next, (Prover.start ladderCatalog ⟨some 3, .strict⟩ : Prover Unit).compile 11
        (.const "Roof") = some (.ok plan, next) ∧
      (Prover.start ladderCatalog ⟨none, .strict⟩ : Prover Unit).compile 11 (.const "Roof") =
        some (.ok plan, next.under ⟨none, .strict⟩)) ∧
    ∃ failure next, (Prover.start ladderCatalog ⟨some 2, .strict⟩ : Prover Unit).compile 100
        (.const "Roof") = some (.error failure, next) ∧ failure.isDepthExceeded = true := by
  have hb : Catalog.build ladder = .ok ladderCatalog := by decide
  have hs : Session ladderCatalog Policy.default [] (.start ladderCatalog Policy.default) :=
    .start (V := Unit)
  constructor
  · have hany : ((Prover.start ladderCatalog ⟨some 3, .strict⟩ : Prover Unit).compile 11
        (.const "Roof")).any (fun a => a.1.isOk) = true := by decide +kernel
    obtain ⟨⟨answer, next⟩, hc, hok⟩ := (Option.any_eq_true _ _).mp hany
    cases answer with
    | error failure => cases hok
    | ok plan =>
      have hloose := (bound_only_cuts hb hs 3 .strict (.const "Roof")).1 11 _ next hc
        (fun _ hf => by cases hf) none (fun _ hm => by cases hm)
      exact ⟨plan, next, hc, hloose⟩
  · have hany : (Knowledge.empty.trace ladderCatalog ⟨some 2, .strict⟩ 6 (.const "Roof")).any
        (fun e => e.asks? = some (.const "Base") ∧ (e.ledger.get? (.const "Base")).isNone ∧
          (Policy.refusal? ⟨some 2, .strict⟩ e.chain (.const "Base")).isSome) = true := by
      decide +kernel
    obtain ⟨e, he, hrefuses⟩ := List.any_eq_true.mp hany
    obtain ⟨hasked, hunknown, hrefused⟩ := of_decide_eq_true hrefuses
    obtain ⟨failure, hrefusal⟩ := Option.isSome_iff_exists.mp hrefused
    exact (bound_only_cuts hb hs 2 .strict (.const "Roof")).2 6 e he (.const "Base") failure
      ⟨hasked, Option.isNone_iff_eq_none.mp hunknown, hrefusal⟩ 100 (by decide)

end Clausal
