import Clausal.Proofs.Invariance

namespace Clausal

namespace Search

variable {catalog : Catalog} {policy : Policy} {s next : Search}

/-- The goal of the outermost frame. -/
def root? (s : Search) : Option Term :=
  s.stack[0]?.map Frame.goal

theorem root?_concat (below : List Frame) {top top' : Frame} (h : top'.goal = top.goal) :
    (below ++ [top'])[0]?.map Frame.goal = (below ++ [top])[0]?.map Frame.goal := by
  cases below with
  | nil => simp [h]
  | cons f below => simp

theorem root?_running (h : Aligned s.stack s.ledger.get?)
    (hs : s.step catalog policy = .running next) : next.root? = s.root? := by
  rcases running_cases hs with ⟨_, _, top, hp, hst⟩ | ⟨t, r, goal, _, _, _, _, _, rfl⟩ | ⟨_, _, hcl⟩
  · have hroot := root?_concat s.below hp.same.1
    rcases hst with hst | ⟨j, hst⟩
    · rw [root?, hst, hroot]
      rfl
    · have hrefer : ((s.below ++ [top]).modify j Frame.refer)[0]?.map Frame.goal =
          (s.below ++ [top])[0]?.map Frame.goal := by
        rw [List.getElem?_modify]
        cases (s.below ++ [top])[0]? with
        | none => rfl
        | some f => by_cases hj : j = 0 <;> simp [hj, Frame.refer]
      rw [root?, hst, hrefer, hroot]
      rfl
  · rw [root?, root?, stack, push]
    rw [List.getElem?_append_left (by rw [stack_length]; omega)]
  · have hlift : ∀ {frames : List Frame} {parent : Frame}, s.below = frames ++ [parent] →
        s.root? = (frames ++ [parent])[0]?.map Frame.goal := by
      intro frames parent hb
      rw [root?, stack, hb, List.getElem?_append_left (by simp)]
    cases closes h hcl with
    | @kept parent hc ho hk hl hp =>
      have hgoal : next.top.goal = parent.goal := hp.same.1
      have hroot := root?_concat next.below hgoal
      rw [root?, stack, hroot, ← hk]
      have hlen : 0 < s.below.length := by
        have := s.keep_length (s.verdict policy)
        rw [hk] at this
        simp at this
        omega
      obtain ⟨f₁, hf₁, _⟩ := exists_keep_frames (s := s) ho (List.getElem?_eq_getElem hlen)
      obtain ⟨f₀, hf₀, _, hsame, _⟩ := keep_frames_same ho hf₁
      rw [root?, hf₁, hf₀, Option.map_some, Option.map_some, hsame]
    | @cut parent failure _ _ _ hb _ _ _ hp =>
      rw [hlift hb, root?, stack]
      exact root?_concat next.below hp.same.1

end Search

variable {catalog : Catalog} {policy : Policy}

/-- The answer of a call that is not cut short is what is known of the goal from then on. -/
inductive Answered (states : States) (goal : Term) : Outcome → Prop
  | resolved {p} : states goal = some (.resolved p) → Answered states goal (.ok p)
  | failed {f cause} : states goal = some (.failed f) → f.Shows cause →
      Answered states goal (.error cause)

/-- A search for a goal ends by closing the frame of that goal, with no other frame left. -/
theorem Knowledge.first_last {known next : Knowledge} {budget : Nat} {goal : Term}
    {outcome : Outcome} (ha : Aligned [] known.ledger.get?)
    (hr : ∀ p, known.ledger.get? goal ≠ some (.resolved p))
    (hf : ∀ f, known.ledger.get? goal ≠ some (.failed f))
    (h : (known.first catalog goal).run catalog policy budget = some (outcome, next)) :
    ∃ before last, (known.first catalog goal).trace catalog policy budget = before ++ [last] ∧
      last.below = [] ∧ last.Closing ∧ last.top.goal = goal ∧ outcome = last.verdict policy ∧
        next.ledger = (last.keep (last.verdict policy)).1 := by
  have hn := ha.eq_none hr hf
  have hstart : Aligned (known.first catalog goal).stack (known.first catalog goal).ledger.get? :=
    show Aligned ([] ++ [Frame.start catalog 0 goal known.table.size])
      (known.first catalog goal).ledger.get? from ha.push hn first_get? (by simp)
  -- The outermost goal stays the same up to the last step, which ends its frame.
  obtain ⟨before, last, htrace, ⟨_, hroot⟩, hstep⟩ := Search.run_finished []
    (S := fun _ s => Aligned s.stack s.ledger.get? ∧ s.root? = some goal)
    (fun hs hn => ⟨Search.aligned_running hs.1 hn, (Search.root?_running hs.1 hn).trans hs.2⟩)
    ⟨hstart, rfl⟩ h
  obtain ⟨ht, hrest, hcl⟩ := Search.finished_cases hstep
  obtain ⟨hb, rfl, hl, _⟩ := Search.closeTop_finished hcl
  have hgoal : last.top.goal = goal := by
    simpa [Search.root?, Search.stack, hb] using hroot
  exact ⟨before, last, htrace, hb, ⟨ht, hrest⟩, hgoal, rfl, hl⟩

theorem Knowledge.prove_answered {known next : Knowledge} {budget : Nat} {goal : Term}
    {outcome : Outcome} (ha : Aligned [] known.ledger.get?)
    (h : known.prove catalog policy budget goal = some (outcome, next)) :
    goal.isGround = false ∧ outcome = .error (.nonGroundGoal goal) ∨
      outcome.isDepthExceeded = true ∨ Answered next.ledger.get? goal outcome := by
  cases known.call catalog policy budget goal with
  | nonGround hg hp _ =>
    cases hp.symm.trans h
    exact .inl ⟨hg, rfl⟩
  | resolved hg hp _ =>
    cases hp.symm.trans h
    exact .inr (.inr (.resolved hg))
  | failed hg hp _ =>
    cases hp.symm.trans h
    exact .inr (.inr (.failed hg (.inr ⟨[], rfl⟩)))
  | refused _ _ _ hf hp _ =>
    cases hp.symm.trans h
    exact .inr (.inl (Policy.refusal?_isDepthExceeded hf))
  | searched hg hr hf hp _ =>
    obtain ⟨_, last, _, hb, _, rfl, rfl, hl⟩ := first_last ha hr hf (hp.symm.trans h)
    by_cases ho : (last.verdict policy).isDepthExceeded = true
    · exact .inr (.inl ho)
    · have hkept := Search.keep_top (s := last) (by simpa using ho)
      rw [← hl, if_neg (by simp [hb])] at hkept
      refine .inr (.inr ?_)
      cases hv : last.verdict policy with
      | ok p => exact .resolved (by rw [hkept, hv]; rfl)
      | error f => exact .failed (by rw [hkept, hv]; rfl) (.inl rfl)

/-- The plan that a call gives is the proof that is known of the goal from then on. -/
theorem Prover.compile_resolved {V : Type} {s next : Prover V} {budget : Nat} {goal : Term}
    {plan : Plan} (ha : Aligned [] s.known.ledger.get?)
    (hc : s.compile budget goal = some (.ok plan, next)) :
    plan.table = next.known.table ∧
      next.known.ledger.get? goal = some (.resolved plan.proof) := by
  obtain ⟨outcome, known, hp, he, rfl⟩ := compile_outcome hc
  cases outcome with
  | error f => cases he
  | ok p =>
    cases he
    refine ⟨rfl, ?_⟩
    rcases Knowledge.prove_answered ha hp with ⟨_, h⟩ | h | h
    · cases h
    · cases h
    · cases h with
      | resolved hr => exact hr

end Clausal
