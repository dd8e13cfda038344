import Clausal.Proofs.Cutting
import Clausal.Proofs.Unchained
import Clausal.Proofs.Verdicts

namespace Clausal

mutual

/-- The failure is due to the depth bound, or lists an attempt that is, at whatever level. -/
def Failure.involvesDepth : Failure → Bool
  | .noRule _ _ attempted => Failure.anyInvolvesDepth attempted
  | .depthExceeded _ _ _ => true
  | .ambiguous _ _ _ => false
  | .cyclicRule _ _ _ => false
  | .nonGroundGoal _ => false
  | .invocation _ _ _ => false
  | .valueType _ _ => false

def Failure.anyInvolvesDepth : List Attempt → Bool
  | [] => false
  | a :: rest => a.involvesDepth || Failure.anyInvolvesDepth rest

def Attempt.involvesDepth : Attempt → Bool
  | .mismatch _ _ => false
  | .unbound _ _ => false
  | .cycle _ _ _ => false
  | .subgoal _ _ _ cause => cause.involvesDepth

end

theorem Failure.anyInvolvesDepth_eq_false {attempted : List Attempt} :
    Failure.anyInvolvesDepth attempted = false ↔ ∀ a ∈ attempted, a.involvesDepth = false := by
  induction attempted with
  | nil => simp [Failure.anyInvolvesDepth]
  | cons a rest ih => simp [Failure.anyInvolvesDepth, ih]

mutual

theorem Failure.involvesDepth_unchained :
    (f : Failure) → f.unchained.involvesDepth = f.involvesDepth
  | .noRule _ _ attempted => by
    simp only [Failure.unchained, Failure.involvesDepth,
      Failure.anyInvolvesDepth_unchained attempted]
  | .depthExceeded _ _ _ => rfl
  | .ambiguous _ _ _ => rfl
  | .cyclicRule _ _ _ => rfl
  | .nonGroundGoal _ => rfl
  | .invocation _ _ _ => rfl
  | .valueType _ _ => rfl

theorem Failure.anyInvolvesDepth_unchained : (attempted : List Attempt) →
    Failure.anyInvolvesDepth (Failure.unchainedAttempts attempted) =
      Failure.anyInvolvesDepth attempted
  | [] => rfl
  | a :: rest => by
    simp only [Failure.unchainedAttempts, Failure.anyInvolvesDepth,
      Attempt.involvesDepth_unchained a, Failure.anyInvolvesDepth_unchained rest]

theorem Attempt.involvesDepth_unchained :
    (a : Attempt) → a.unchained.involvesDepth = a.involvesDepth
  | .mismatch _ _ => rfl
  | .unbound _ _ => rfl
  | .cycle _ _ _ => rfl
  | .subgoal _ _ _ cause => by
    simp only [Attempt.unchained, Attempt.involvesDepth, Failure.involvesDepth_unchained cause]

end

theorem Failure.Shows.involvesDepth {f cause : Failure} (h : f.Shows cause) :
    cause.involvesDepth = f.involvesDepth := by
  rw [← cause.involvesDepth_unchained, h.unchained, f.involvesDepth_unchained]

/-- Apart from the failures due to the depth bound, the frame blames none that involves it. -/
def Frame.Unmixed (f : Frame) : Prop :=
  ∀ cause, f.Blames cause → cause.isDepthExceeded = false → cause.involvesDepth = false

/-- The failure that a state holds, if it holds one, does not involve the depth bound. -/
def GoalState.DepthFree (state : GoalState) : Prop :=
  ∀ f, state.outcome? = some (.error f) → f.involvesDepth = false

section

variable {states : States} {depth : Nat} {f f₀ top top' : Frame}

theorem Frame.Unmixed.congr (h : f₀.Unmixed) (he : f.attempted = f₀.attempted) : f.Unmixed := by
  rintro cause ⟨a, ha, hc⟩ hd
  exact h cause ⟨a, he ▸ ha, hc⟩ hd

theorem Frame.Unmixed.progress (h : top.Unmixed)
    (hst : ∀ g f, FailsBy states g f → f.involvesDepth = false)
    (hp : top.Progress states depth top') : top'.Unmixed := by
  intro cause hb hd
  rcases hp.blames hb with hold | ⟨t, r, goal, low, _, _, _, hans⟩
  · exact h cause hold hd
  · rcases hans.failsBy with hcut | ⟨f, hf, hshows⟩
    · cases hcut.symm.trans hd
    · exact hshows.involvesDepth.trans (hst goal f hf)

theorem unproved_involvesDepth {attempted : List Attempt}
    (h : ∀ a ∈ attempted, a.involvesDepth = false) (goal : Term) (chain : GoalChain) :
    (unproved goal chain attempted).involvesDepth = false := by
  rcases unproved_cases goal chain attempted with he | ⟨_, _, he⟩
  · rw [he]
    exact Failure.anyInvolvesDepth_eq_false.mpr h
  · rw [he]
    rfl

/-- What a frame that is not cut short fails by does not involve the depth bound. -/
theorem Frame.Unmixed.outcome {policy : Policy} {chain : GoalChain} {failure : Failure}
    (h : f.Unmixed) (hc : ¬f.IsCut) (ho : f.outcome policy chain = .error failure) :
    failure.involvesDepth = false := by
  have hattempted : ∀ a ∈ f.attempted, a.involvesDepth = false := by
    intro a ha
    cases a with
    | subgoal rule requirement goal cause =>
      have hb : f.Blames cause := ⟨_, ha, rfl⟩
      have hd : cause.isDepthExceeded = false :=
        Bool.eq_false_iff.mpr fun hd => hc (isCut_iff_blames.mpr ⟨cause, hb, hd⟩)
      exact h cause hb hd
    | _ => rfl
  rcases f.outcome_cases policy chain with ⟨c, hcut, _, _⟩ | ⟨_, _, he⟩ | ⟨_, _, _, he⟩ |
    ⟨_, _, _, he⟩
  · exact absurd ⟨c, hcut⟩ hc
  · cases he.symm.trans ho
    exact unproved_involvesDepth hattempted _ _
  · cases he.symm.trans ho
    rfl
  · cases he.symm.trans ho

end

/-- No failure that is kept for a goal involves the depth bound. -/
theorem unmixed_upheld (catalog : Catalog) (policy : Policy) :
    Upheld catalog policy (fun _ f => f.Unmixed) (fun _ _ f => f.involvesDepth = false) where
  later h := h
  known h := h
  start := by
    rintro past depth goal id cause ⟨a, ha, _⟩
    cases ha
  trails h ht := h.congr ht.attempted
  -- The failure that cuts a frame short is blamed below, but the states it reaches are dropped.
  progress _ _ hst h hp := h.progress hst hp
  fails _ hc h hv := h.outcome hc hv
  takenBack := by
    rintro past s goal f _ hcause h
    obtain ⟨cause, _, _, _, _, _, hv, _, _, rfl⟩ := h.converted
    have hfree : cause.involvesDepth = false := hcause cause hv
    simp [Spread.convert, Failure.involvesDepth, Failure.anyInvolvesDepth, Attempt.involvesDepth,
      hfree]

/-- The failure tells of a path of needs from a goal, of as many distinct goals as the bound allows,
and of one goal more that is needed next. -/
def Failure.Overruns (catalog : Catalog) (limit : Nat) (root : Term) (f : Failure) : Prop :=
  ∃ sub chain, f = .depthExceeded sub chain limit ∧ chain.length = limit ∧
    (chain ++ [sub]).Nodup ∧ (chain ++ [sub]).head? = some root ∧
      (chain ++ [sub]).IsChain catalog.Needs

variable {catalog : Catalog} {policy : Policy} {limit : Nat} {root : Term}

/-- What a search for `root` under a depth bound keeps to, up to what its frames say about it. -/
structure Search.Bounded (catalog : Catalog) (limit : Nat) (root : Term) (s : Search) : Prop where
  aligned : Aligned s.stack s.ledger.get?
  graph : ProofGraph catalog s.stack s.ledger.get? s.table
  concluded : ∀ g state, s.ledger.get? g = some state → state.Concluded
  length : s.stack.length ≤ limit
  rooted : s.root? = some root
  overruns : ∀ cause, Blamed s.stack cause → cause.isDepthExceeded = true →
    cause.Overruns catalog limit root

namespace Search.Bounded

variable {s next : Search}

/-- A goal is refused when the stack is full, as the next one on the path that the stack is. -/
theorem refused (h : s.Bounded catalog limit root) (hn : policy.maxDepth = some limit)
    {goal : Term} {failure : Failure} (hr : s.Refuses policy goal failure) :
    failure.Overruns catalog limit root := by
  obtain ⟨t, r, ht, hreq, ha⟩ := asks?_eq_some.mp hr.asked
  obtain ⟨hfull, rfl⟩ := (Policy.refusal?_eq_some hn).mp hr.refused
  have hlen : s.chain.length = s.stack.length := List.length_map _
  have hle := h.length
  have htop : s.stack[s.below.length]? = some s.top := getElem?_concat_top
  have hlast : s.chain = s.below.map Frame.goal ++ [s.top.goal] := by simp [chain, stack]
  refine ⟨goal, s.chain, rfl, by omega, ?_, ?_, ?_⟩
  · refine List.nodup_append.mpr ⟨h.aligned.goals_nodup, List.nodup_singleton goal, ?_⟩
    rintro x hx y hy rfl
    obtain rfl : x = goal := List.mem_singleton.mp hy
    obtain ⟨f, hf, rfl⟩ := List.mem_map.mp hx
    obtain ⟨i, hi⟩ := List.mem_iff_getElem?.mp hf
    cases (h.aligned.framed i f hi).symm.trans hr.unknown
  · have hhead : s.chain.head? = some root := by
      rw [chain, List.head?_eq_getElem?, List.getElem?_map]
      exact h.rooted
    rw [List.head?_append, hhead]
    rfl
  · have hneeds : catalog.Needs s.top.goal goal :=
      (h.graph.numbered.sound _ s.top htop).needs ht hreq ha
    refine List.isChain_append.mpr
      ⟨h.aligned.goals_isChain h.graph.numbered.sound, List.isChain_singleton goal, ?_⟩
    intro x hx y hy
    rw [hlast, List.getLast?_concat] at hx
    cases hx
    cases hy
    exact hneeds

theorem running (hc : catalog.Indexed) (hn : policy.maxDepth = some limit)
    (h : s.Bounded catalog limit root) (hs : s.step catalog policy = .running next) :
    next.Bounded catalog limit root where
  aligned := aligned_running h.aligned hs
  graph := (proofGraph_invariant policy hc).running [] h.aligned h.graph hs
  concluded :=
    ((concluded_invariant catalog policy).running [] h.aligned ⟨trivial, h.concluded⟩ hs).2
  length := stack_length_running hn h.length hs
  rooted := (root?_running h.aligned hs).trans h.rooted
  overruns := by
    intro cause hb hd
    rcases blamed_running h.concluded hs hb hd with hold | ⟨goal, hr⟩
    · exact h.overruns cause hold hd
    · exact h.refused hn hr

end Search.Bounded

/-- No frame of a search blames the depth bound. -/
structure Search.Unblamed (s : Search) : Prop where
  aligned : Aligned s.stack s.ledger.get?
  concluded : ∀ g state, s.ledger.get? g = some state → state.Concluded
  blames : ∀ cause, Blamed s.stack cause → cause.isDepthExceeded ≠ true

theorem Search.Unblamed.running {s next : Search} (h : s.Unblamed)
    (admits : ∀ chain goal, policy.refusal? chain goal = none)
    (hs : s.step catalog policy = .running next) : next.Unblamed where
  aligned := aligned_running h.aligned hs
  concluded :=
    ((concluded_invariant catalog policy).running [] h.aligned ⟨trivial, h.concluded⟩ hs).2
  blames := by
    intro cause hb hd
    rcases blamed_running h.concluded hs hb hd with hold | ⟨goal, hr⟩
    · exact h.blames cause hold hd
    · cases (admits s.chain goal).symm.trans hr.refused

namespace Knowledge

variable {known after : Knowledge} {goal : Term} {budget : Nat}

theorem Clean.concluded_first (hk : known.Clean) (catalog : Catalog) (goal : Term) :
    ∀ g state, (known.first catalog goal).ledger.get? g = some state → state.Concluded := by
  intro g state hst
  rw [first_get?] at hst
  split at hst
  · cases hst
    exact trivial
  · exact hk.concluded g state hst

theorem not_blamed_first (catalog : Catalog) (known : Knowledge) (goal : Term) (cause : Failure) :
    ¬Blamed (known.first catalog goal).stack cause := by
  intro ⟨f, hf, a, ha, _⟩
  have he : f = Frame.start catalog 0 goal known.table.size := List.mem_singleton.mp hf
  subst he
  cases ha

theorem Searches.bounded (h : known.Searches policy goal) (hn : policy.maxDepth = some limit)
    (hc : catalog.Indexed) (hk : known.Clean)
    (hg : ProofGraph catalog [] known.ledger.get? known.table) :
    (known.first catalog goal).Bounded catalog limit goal where
  aligned := h.aligned hk.aligned
  graph := h.graph hc hk.aligned hg
  concluded := hk.concluded_first catalog goal
  length := h.stack_length_le hn
  rooted := rfl
  overruns cause hb _ := absurd hb (not_blamed_first catalog known goal cause)

theorem Searches.unblamed (h : known.Searches policy goal) (hk : known.Clean) :
    (known.first catalog goal).Unblamed where
  aligned := h.aligned hk.aligned
  concluded := hk.concluded_first catalog goal
  blames cause hb _ := not_blamed_first catalog known goal cause hb

theorem overruns_of_refusal? (hn : policy.maxDepth = some limit) {failure : Failure}
    (h : policy.refusal? [] goal = some failure) : failure.Overruns catalog limit goal := by
  obtain ⟨hzero, rfl⟩ := (Policy.refusal?_eq_some hn).mp h
  refine ⟨goal, [], rfl, ?_, List.nodup_singleton goal, rfl, List.isChain_singleton goal⟩
  exact (Nat.le_zero.mp hzero).symm

/-- A call that fails for its depth refuses the goal asked for at once, or ends in a search some frame
of which blames the failure. -/
theorem blamed_of_prove (hk : known.Clean) {P : Search → Prop}
    (start : known.Searches policy goal → P (known.first catalog goal))
    (running : ∀ {s next}, P s → s.step catalog policy = .running next → P next)
    {failure : Failure} (h : known.prove catalog policy budget goal = some (.error failure, after))
    (hd : failure.isDepthExceeded = true) :
    policy.refusal? [] goal = some failure ∨ ∃ last, P last ∧ Blamed last.stack failure := by
  cases known.call catalog policy budget goal with
  | nonGround _ hp _ =>
    cases hp.symm.trans h
    cases hd
  | resolved _ hp _ => cases hp.symm.trans h
  | @failed f hst hp _ =>
    cases hp.symm.trans h
    have hconclusion : (f.seenFrom []).isConclusion = true :=
      (f.isConclusion_seenFrom []).trans (hk.concluded _ _ hst)
    rw [Failure.not_isDepthExceeded_of_isConclusion hconclusion] at hd
    cases hd
  | refused _ _ _ hrefusal hp _ =>
    cases hp.symm.trans h
    exact .inl hrefusal
  | searched hground hr hf _ _ =>
    cases hrefusal : policy.refusal? [] goal with
    | some f =>
      rw [prove_unknown hground hr hf, hrefusal] at h
      cases h
      exact .inl rfl
    | none =>
      have hsearches : known.Searches policy goal := ⟨hground, hr, hf, hrefusal⟩
      rw [hsearches.prove] at h
      obtain ⟨_, last, _, hlast, hstep⟩ := Search.run_finished [] (S := fun _ s => P s)
        running (start hsearches) h
      obtain ⟨_, _, hcl⟩ := Search.finished_cases hstep
      obtain ⟨_, hv, _, _⟩ := Search.closeTop_finished hcl
      have hb : last.top.Blames failure := Search.blames_of_verdict hv.symm hd
      exact .inr ⟨last, hlast, blamed_concat.mpr (.inr hb)⟩

/-- A call that fails for its depth has gone down a path of as many goals as the bound allows. -/
theorem prove_overruns (hc : catalog.Indexed) (hk : known.Clean)
    (hg : ProofGraph catalog [] known.ledger.get? known.table) (hn : policy.maxDepth = some limit)
    {failure : Failure}
    (h : known.prove catalog policy budget goal = some (.error failure, after))
    (hd : failure.isDepthExceeded = true) : failure.Overruns catalog limit goal := by
  rcases blamed_of_prove hk (P := fun s => s.Bounded catalog limit goal)
    (fun hsearches => hsearches.bounded hn hc hk hg) (fun hs hstep => hs.running hc hn hstep) h hd
    with hrefusal | ⟨last, hlast, hb⟩
  · exact overruns_of_refusal? hn hrefusal
  · exact hlast.overruns failure hb hd

/-- Without a depth bound no call fails for its depth. -/
theorem prove_unbounded (hk : known.Clean) (hn : policy.maxDepth = none) {failure : Failure}
    (h : known.prove catalog policy budget goal = some (.error failure, after)) :
    failure.isDepthExceeded = false := by
  have admits : ∀ chain goal, policy.refusal? chain goal = none := by
    intro chain goal
    rw [Policy.refusal?, hn]
  by_contra hnot
  have hd : failure.isDepthExceeded = true := by simpa using hnot
  rcases blamed_of_prove hk (P := fun s => s.Unblamed) (fun hsearches => hsearches.unblamed hk)
    (fun hs hstep => hs.running admits hstep) h hd with hrefusal | ⟨last, hlast, hb⟩
  · cases (admits [] goal).symm.trans hrefusal
  · exact hlast.blames failure hb hd

end Knowledge

/-- Failures for the depth are reported exactly and never kept. No entry holds one or a failure that
lists one, and each that a call gives carries a path of needs from the goal asked for, of as many
distinct goals as the bound allows, which its own goal would have made longer. -/
theorem depth_failures_exact {clauses : List (String × Clause)} {V : Type} {past : List Search}
    {s : Prover V} (hb : Catalog.build clauses = .ok catalog) (hs : Session catalog policy past s)
    (hn : policy.maxDepth = some limit) :
    (∀ e ∈ s.known.ledger.entries, e.2.DepthFree) ∧
    ∀ budget goal failure next, s.compile budget goal = some (.error failure, next) →
      failure.isDepthExceeded = true →
        ∃ sub chain, failure = .depthExceeded sub chain limit ∧ chain.length = limit ∧
          (chain ++ [sub]).Nodup ∧ (chain ++ [sub]).head? = some goal ∧
            (chain ++ [sub]).IsChain catalog.Needs := by
  have hc := Catalog.build_indexed hb
  obtain ⟨hcatalog, hpolicy, hlearnt⟩ := hs.learnt
  constructor
  · intro e he
    obtain ⟨_, _, _, hfree⟩ := ((unmixed_upheld catalog policy).invariant hc).kept.learnt hlearnt
    exact fun f hout => hfree e.1 f ⟨e.2, hlearnt.clean.distinct.get?_of_mem he, hout⟩
  · intro budget goal failure next h hd
    obtain ⟨outcome, known, hp, he, _⟩ := Prover.compile_outcome h
    rw [hcatalog, hpolicy] at hp
    obtain ⟨_, hg⟩ := (proofGraph_invariant policy hc).kept.learnt hlearnt
    cases outcome with
    | ok p => cases he
    | error f =>
      cases he
      exact Knowledge.prove_overruns hc hlearnt.clean hg hn hp hd

/-- Under a bound of three, the search for ever larger goals tells of the first three. -/
theorem tower_reports_three : ∃ failure next,
    (Prover.start towerCatalog ⟨some 3, .strict⟩ : Prover Unit).compile 125
      (.app "Grow" [.const "Int"]) = some (.error failure, next) ∧
    (∀ e ∈ next.known.ledger.entries, e.2.DepthFree) ∧
    ∃ sub chain, failure = .depthExceeded sub chain 3 ∧ chain.length = 3 ∧
      (chain ++ [sub]).Nodup ∧ (chain ++ [sub]).head? = some (.app "Grow" [.const "Int"]) ∧
        (chain ++ [sub]).IsChain towerCatalog.Needs := by
  have hstart : Session towerCatalog ⟨some 3, .strict⟩ []
      (.start towerCatalog ⟨some 3, .strict⟩) := .start (V := Unit)
  have hn : (⟨some 3, .strict⟩ : Policy).maxDepth = some 3 := rfl
  have hany : ((Prover.start towerCatalog ⟨some 3, .strict⟩ : Prover Unit).compile 125
      (.app "Grow" [.const "Int"])).any
        (fun a => failsWith Failure.isDepthExceeded a.1) = true := by decide +kernel
  obtain ⟨⟨answer, next⟩, h, hfails⟩ := (Option.any_eq_true _ _).mp hany
  obtain ⟨failure, rfl, hd⟩ := exists_of_failsWith hfails
  have hnext := Session.compile hstart h
  exact ⟨failure, next, h, (depth_failures_exact build_tower hnext hn).1,
    (depth_failures_exact build_tower hstart hn).2 125 _ failure next h hd⟩

end Clausal
