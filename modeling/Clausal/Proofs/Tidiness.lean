import Clausal.Proofs.Calls
import Clausal.Proofs.Soundness

namespace Clausal

theorem GoalState.isFailed_of_isResolved {state : GoalState} (h : state.isResolved = true) :
    state.isFailed = false := by
  cases state with
  | resolved p => rfl
  | inProgress j id => cases h
  | provisional k o chain => cases h
  | failed f => cases h

namespace Ledger

/-- No goal has two entries. -/
def Distinct (ledger : Ledger) : Prop :=
  (ledger.entries.map Prod.fst).Nodup

variable {ledger : Ledger} {goal : Term}

theorem Distinct.erase (h : ledger.Distinct) (goal : Term) : (ledger.erase goal).Distinct :=
  List.Nodup.sublist (List.Sublist.map Prod.fst List.filter_sublist) h

theorem Distinct.set (h : ledger.Distinct) (goal : Term) (state : GoalState) :
    (ledger.set goal state).Distinct := by
  refine List.nodup_cons.mpr ⟨fun hm => ?_, h.erase goal⟩
  obtain ⟨e, he, heq⟩ := List.mem_map.mp hm
  have hne : e.1 ≠ goal := by simpa using (List.mem_filter.mp he).2
  exact hne heq

theorem Distinct.restOn (low : Nat) (h : ledger.Distinct) (goal : Term) :
    (ledger.restOn low goal).Distinct := by
  unfold Ledger.restOn
  split
  · exact h.set _ _
  · exact h

theorem Distinct.confirm (succeeded : Bool) (h : ledger.Distinct) (goal : Term) :
    (ledger.confirm succeeded goal).Distinct := by
  unfold Ledger.confirm
  split
  · exact h.set _ _
  · split
    · exact h.erase _
    · exact h.set _ _
  · exact h

theorem Distinct.fold {change : Ledger → Term → Ledger}
    (hchange : ∀ ledger goal, Distinct ledger → (change ledger goal).Distinct)
    (h : ledger.Distinct) (goals : List Term) : (goals.foldl change ledger).Distinct := by
  induction goals generalizing ledger with
  | nil => exact h
  | cons g goals ih => exact ih (hchange ledger g h)

theorem Distinct.visit {failure : Failure} {s : Spread} (h : s.ledger.Distinct) (goal : Term) :
    (Spread.visit failure s goal).ledger.Distinct := by
  rcases Spread.visit_cases failure s goal with hs | ⟨_, _, _, _, _, _, _, _, _, hs⟩
  · rw [hs]
    exact h
  · rw [hs]
    exact h.set _ _

theorem Distinct.sweep {failure : Failure} {parked : List Term} {s : Spread}
    (h : s.ledger.Distinct) : (Spread.sweep failure parked s).ledger.Distinct := by
  have visits : ∀ (goals : List Term) (s : Spread), s.ledger.Distinct →
      (goals.foldl (Spread.visit failure) s).ledger.Distinct := by
    intro goals
    induction goals with
    | nil => exact fun _ h => h
    | cons g goals ih => exact fun s h => ih _ (h.visit g)
  exact visits parked _ h

theorem Distinct.close {failure : Failure} {parked : List Term} (budget : Nat) {s : Spread}
    (h : s.ledger.Distinct) : (Spread.close failure parked budget s).ledger.Distinct := by
  induction budget generalizing s with
  | zero => exact h
  | succ budget ih =>
    have hswept : (Spread.sweep failure parked s).ledger.Distinct := h.sweep
    unfold Spread.close
    dsimp only
    split
    · exact ih hswept
    · exact hswept

theorem Distinct.spreadFailure (h : ledger.Distinct) (failure : Failure) (goal : Term)
    (own lower : List Term) : (ledger.spreadFailure failure goal own lower).Distinct := by
  have hspread : (ledger.spread failure goal own lower).ledger.Distinct := Distinct.close _ h
  rw [spreadFailure_eq]
  split
  · exact Distinct.fold (fun _ g h => h.erase g) hspread _
  · exact hspread

theorem Distinct.get?_of_mem (h : ledger.Distinct) {state : GoalState}
    (hm : (goal, state) ∈ ledger.entries) : ledger.get? goal = some state := by
  obtain ⟨entries, hits, misses⟩ := ledger
  simp only [Distinct, get?] at *
  induction entries with
  | nil => simp at hm
  | cons e entries ih =>
    obtain ⟨g, st⟩ := e
    obtain ⟨hg, hrest⟩ := List.nodup_cons.mp h
    rcases List.mem_cons.mp hm with heq | htail
    · cases heq
      exact List.lookup_cons_self
    · have hne : goal ≠ g := by
        rintro rfl
        exact hg (List.mem_map.mpr ⟨_, htail, rfl⟩)
      rw [List.lookup_cons, beq_eq_false_iff_ne.mpr hne]
      exact ih hrest htail

/-- Where every entry is final, each counts as resolved or as failed. -/
theorem stats_entries (h : ∀ e ∈ ledger.entries, e.2.isResolved = true ∨ e.2.isFailed = true) :
    ledger.stats.entries = ledger.stats.resolved + ledger.stats.failed := by
  obtain ⟨entries, hits, misses⟩ := ledger
  simp only [stats] at *
  induction entries with
  | nil => rfl
  | cons e entries ih =>
    have hrest := ih fun e' he' => h e' (List.mem_cons_of_mem e he')
    rw [List.length_cons, List.countP_cons, List.countP_cons]
    rcases h e List.mem_cons_self with he | he
    · have hother : e.2.isFailed = false := GoalState.isFailed_of_isResolved he
      simp only [he, hother, if_true, Bool.false_eq_true, if_false]
      omega
    · have hother : e.2.isResolved = false := by
        by_contra hres
        simp [GoalState.isFailed_of_isResolved (by simpa using hres)] at he
      simp only [he, hother, if_true, Bool.false_eq_true, if_false]
      omega

end Ledger

namespace Search

variable {catalog : Catalog} {policy : Policy} {s next : Search}

theorem distinct_keep (h : s.ledger.Distinct) (outcome : Outcome) :
    (s.keep outcome).1.Distinct := by
  have hspread : (s.spread outcome).Distinct := by
    cases outcome with
    | ok p => exact h
    | error f => exact h.spreadFailure _ _ _ _
  have hkeep : (s.keep outcome).1 =
      if outcome.isDepthExceeded then s.spread outcome
      else if s.top.low < s.below.length then
        (s.top.parked.foldl (Ledger.restOn s.top.low) (s.spread outcome)).set s.top.goal
          (.provisional s.top.low outcome (s.below.map Frame.goal))
      else s.top.parked.foldl (Ledger.confirm outcome.succeeded)
        ((s.spread outcome).set s.top.goal (finalState outcome)) := by
    unfold keep
    dsimp only
    split
    · cases outcome <;> rfl
    · split <;> cases outcome <;> rfl
  rw [hkeep]
  split
  · exact hspread
  · split
    · exact (hspread.fold (fun _ g h => h.restOn _ g) _).set _ _
    · exact (hspread.set _ _).fold (fun _ g h => h.confirm _ g) _

theorem distinct_meet (h : s.ledger.Distinct) (t : Trial) (r : Requirement) :
    (s.meet catalog policy t r).ledger.Distinct := by
  unfold meet
  split
  · exact h
  next goal _ =>
    split
    next s' answer low ha =>
      show s'.ledger.Distinct
      unfold answer? at ha
      split at ha
      · cases ha
      · split at ha <;> cases ha
        · unfold refer
          split <;> exact h
        · exact h
      all_goals cases ha; exact h
    next =>
      unfold descend
      dsimp only
      split
      · exact h
      · exact h.set _ _

theorem distinct_closeTop (h : s.ledger.Distinct) :
    (∀ next, s.closeTop policy = .running next → next.ledger.Distinct) ∧
      ∀ outcome known, s.closeTop policy = .finished outcome known → known.ledger.Distinct := by
  constructor
  · intro next hs
    obtain ⟨_, _, hl, _⟩ := closeTop_running hs
    rw [hl]
    exact distinct_keep h _
  · intro outcome known hs
    obtain ⟨_, _, hl, _⟩ := closeTop_finished hs
    rw [hl]
    exact distinct_keep h _

theorem distinct_running (h : s.ledger.Distinct) (hs : s.step catalog policy = .running next) :
    next.ledger.Distinct := by
  unfold step at hs
  split at hs
  next t _ =>
    split at hs
    next r _ =>
      cases hs
      exact distinct_meet h t r
    · cases hs
      exact h
  · split at hs
    · cases hs
      exact h
    · exact (distinct_closeTop h).1 next hs

end Search

/-- The failures that tell why a goal has no value, whatever the search was asked for first. -/
def Failure.isConclusion : Failure → Bool
  | .noRule _ _ _ => true
  | .ambiguous _ _ _ => true
  | .cyclicRule _ _ _ => true
  | _ => false

/-- A failure that is kept for a goal is a conclusion. -/
def GoalState.Concluded : GoalState → Prop
  | .failed f => f.isConclusion = true
  | .provisional _ (.error f) _ => f.isConclusion = true
  | _ => True

theorem Failure.isConclusion_seenFrom (f : Failure) (chain : GoalChain) :
    (f.seenFrom chain).isConclusion = f.isConclusion := by
  unfold seenFrom
  split
  · rfl
  · split
    · rfl
    · cases f <;> rfl

theorem Failure.Shows.isConclusion {f cause : Failure} (h : f.Shows cause) :
    cause.isConclusion = f.isConclusion := by
  rcases h with rfl | ⟨chain, rfl⟩
  · rfl
  · exact f.isConclusion_seenFrom chain

theorem Failure.not_isDepthExceeded_of_isConclusion {f : Failure} (h : f.isConclusion = true) :
    f.isDepthExceeded = false := by
  cases f <;> first | rfl | cases h

theorem isConclusion_unproved (goal : Term) (chain : GoalChain) (attempted : List Attempt) :
    (unproved goal chain attempted).isConclusion = true := by
  rcases unproved_cases goal chain attempted with he | ⟨_, _, he⟩
  · rw [he]
    rfl
  · rw [he]
    rfl

/-- A frame that the depth bound does not cut short fails by a conclusion, if it fails. -/
theorem Frame.outcome_concluded {f : Frame} {policy : Policy} {chain : GoalChain}
    {failure : Failure} (hc : ¬f.IsCut) (h : f.outcome policy chain = .error failure) :
    failure.isConclusion = true := by
  rcases f.outcome_cases policy chain with ⟨c, hcut, _, _⟩ | ⟨_, _, ho⟩ | ⟨_, _, _, ho⟩ | ⟨_, w, _, ho⟩
  · exact absurd ⟨c, hcut⟩ hc
  · cases ho.symm.trans h
    exact isConclusion_unproved _ _ _
  · cases ho.symm.trans h
    rfl
  · cases ho.symm.trans h

/-- What the search for a goal came to, as far as it is over. -/
def GoalState.outcome? : GoalState → Option Outcome
  | .inProgress _ _ => none
  | .provisional _ outcome _ => some outcome
  | .resolved p => some (.ok p)
  | .failed f => some (.error f)

theorem GoalState.concluded_iff {state : GoalState} :
    state.Concluded ↔ ∀ f, state.outcome? = some (.error f) → f.isConclusion = true := by
  rcases state with _ | ⟨_, _ | _, _⟩ | _ | _ <;> simp [Concluded, outcome?]

/-- The end of the goal that a state rests on leaves the outcome as it is. -/
theorem GoalState.outcome?_close? {n low : Nat} {succeeded : Bool} {before state : GoalState}
    (hc : before.close? n low succeeded = some state) : state.outcome? = before.outcome? := by
  cases state with
  | inProgress j id => rw [GoalState.close?_inProgress hc]
  | resolved p => rcases GoalState.close?_resolved hc with rfl | ⟨chain, rfl, _⟩ <;> rfl
  | failed f => rcases GoalState.close?_failed hc with rfl | ⟨chain, rfl, _⟩ <;> rfl
  | provisional k o chain =>
    rcases GoalState.close?_provisional hc with ⟨rfl, _⟩ | ⟨rfl, _⟩ <;> rfl

/-- An outcome that is known once a frame has ended is the frame's own, or was known before, or is
the failure of a success that leads into the frame's goal. -/
theorem Search.closed_outcome? {policy : Policy} {s : Search} (ha : Aligned s.stack s.ledger.get?)
    (hc : ¬s.top.IsCut) {g : Term} {state : GoalState} (hg : s.closed policy g = some state)
    {outcome : Outcome} (hout : state.outcome? = some outcome) :
    outcome = s.verdict policy ∨
      (∃ before, s.ledger.get? g = some before ∧ before.outcome? = some outcome) ∨
        ∃ f chain p i sub, s.verdict policy = .error f ∧
          outcome = .error (Spread.convert f g chain p i sub) := by
  have ho : (s.verdict policy).isDepthExceeded = false := not_verdict_isDepthExceeded hc
  by_cases htop : g = s.top.goal
  · subst htop
    rw [closed, keep_top ho] at hg
    cases hv : s.verdict policy <;> rw [hv] at hg <;> split at hg <;> cases hg <;> cases hout <;>
      exact .inl rfl
  · rw [closed, keep_states ha hc ho htop] at hg
    obtain ⟨before, hb, hcl⟩ := Option.bind_eq_some_iff.mp hg
    have hsame : before.outcome? = some outcome := (GoalState.outcome?_close? hcl).symm.trans hout
    rcases spread_cases ho g with hspread | ⟨_, p, chain, f, hv, _, _, i, e, _, hspread⟩
    · exact .inr (.inl ⟨before, hspread.symm.trans hb, hsame⟩)
    · cases hspread.symm.trans hb
      cases hsame
      exact .inr (.inr ⟨f, chain, p, i, e.goal, hv, rfl⟩)

/-- A goal still has the outcome that it had when the top frame ended. -/
def Search.Lasts (policy : Policy) (s : Search) (states : States) (goal : Term) : Prop :=
  ∃ outcome, (s.closed policy goal).bind GoalState.outcome? = some outcome ∧
    (states goal).bind GoalState.outcome? = some outcome

theorem Search.lasts_closed {policy : Policy} {s : Search} {goal : Term} {state : GoalState}
    {outcome : Outcome} (hg : s.closed policy goal = some state)
    (ho : state.outcome? = some outcome) : s.Lasts policy (s.closed policy) goal := by
  refine ⟨outcome, ?_, ?_⟩ <;> rw [hg] <;> exact ho

theorem Search.Lasts.congr {policy : Policy} {s : Search} {states states' : States} {goal : Term}
    (h : s.Lasts policy states goal)
    (he : (states' goal).bind GoalState.outcome? = (states goal).bind GoalState.outcome?) :
    s.Lasts policy states' goal := by
  obtain ⟨outcome, hclosed, hnow⟩ := h
  exact ⟨outcome, hclosed, he.trans hnow⟩

/-- What has left a goal with its outcome is among the search states so far as long as the outcome
stays. -/
theorem Search.exists_lasts_later {policy : Policy} {P : Search → Prop} {past : List Search}
    {states states' : States} {goal : Term} (s : Search)
    (h : ∃ e ∈ past, P e ∧ e.Lasts policy states goal)
    (hsame : (states' goal).bind GoalState.outcome? = (states goal).bind GoalState.outcome?) :
    ∃ e ∈ past ++ [s], P e ∧ e.Lasts policy states' goal := by
  obtain ⟨e, he, hcase, hlasts⟩ := h
  exact ⟨e, List.mem_append_left _ he, hcase, hlasts.congr hsame⟩

/-- Between calls, the outcome that lasts is final. -/
theorem Search.Lasts.idle {policy : Policy} {s : Search} {states : States} {goal : Term}
    (h : s.Lasts policy states goal) (ha : Aligned [] states) :
    (∃ p, (s.closed policy goal).bind GoalState.outcome? = some (.ok p) ∧
      states goal = some (.resolved p)) ∨
    ∃ f, (s.closed policy goal).bind GoalState.outcome? = some (.error f) ∧
      states goal = some (.failed f) := by
  obtain ⟨outcome, hclosed, hnow⟩ := h
  obtain ⟨state, hst, hout⟩ := Option.bind_eq_some_iff.mp hnow
  rcases aligned_nil.mp ha goal state hst with ⟨p, rfl⟩ | ⟨f, rfl⟩
  · cases hout
    exact .inl ⟨p, hclosed, hst⟩
  · cases hout
    exact .inr ⟨f, hclosed, hst⟩

/-- Closing a frame makes no goal known of which nothing was. -/
theorem Search.known_of_closed {policy : Policy} {s : Search} (ha : Aligned s.stack s.ledger.get?)
    (hc : ¬s.top.IsCut) {g : Term} {state : GoalState} (hg : s.closed policy g = some state) :
    ∃ before, s.ledger.get? g = some before := by
  have ho : (s.verdict policy).isDepthExceeded = false := not_verdict_isDepthExceeded hc
  by_cases htop : g = s.top.goal
  · exact ⟨_, htop ▸ ha.framed s.below.length s.top getElem?_concat_top⟩
  · rw [closed, keep_states ha hc ho htop] at hg
    obtain ⟨before, hb, _⟩ := Option.bind_eq_some_iff.mp hg
    rcases spread_cases ho g with hsame | ⟨_, _, _, _, _, _, hold, _⟩
    · exact ⟨before, hsame.symm.trans hb⟩
    · exact ⟨_, hold⟩

theorem Search.closed_concluded {policy : Policy} {s : Search}
    (ha : Aligned s.stack s.ledger.get?) (hc : ¬s.top.IsCut)
    (h : ∀ g state, s.ledger.get? g = some state → state.Concluded) {g : Term} {state : GoalState}
    (hg : s.closed policy g = some state) : state.Concluded := by
  refine GoalState.concluded_iff.mpr fun f hout => ?_
  rcases s.closed_outcome? ha hc hg hout with hv | ⟨before, hb, hsame⟩ | ⟨_, _, _, _, _, _, he⟩
  · exact Frame.outcome_concluded hc hv.symm
  · exact GoalState.concluded_iff.mp (h g before hb) f hsame
  · cases he
    rfl

variable {catalog : Catalog} {policy : Policy}

/-- Nothing needs to be kept for stack and ledger to stay aligned. -/
theorem aligned_invariant (catalog : Catalog) (policy : Policy) :
    Invariant catalog policy fun _ _ _ _ => True where
  nothing := trivial
  forget _ := trivial
  past _ := trivial
  push _ _ _ _ _ := trivial
  progress _ _ _ := trivial
  refer _ _ := trivial
  keep _ _ _ _ _ _ := trivial
  cut _ _ _ _ _ _ _ _ := trivial

theorem concluded_invariant (catalog : Catalog) (policy : Policy) :
    Invariant catalog policy fun _ _ states _ =>
      True ∧ ∀ g state, states g = some state → state.Concluded := by
  refine (aligned_invariant catalog policy).and
    (J := fun _ states => ∀ g state, states g = some state → state.Concluded) ?_ ?_ ?_ ?_ ?_
  · intro past g state hg
    cases hg
  · exact fun _ _ _ h => h
  · intro past states states' goal n id h _ hs g state hg
    rw [hs] at hg
    split at hg
    · cases hg
      exact trivial
    · exact h g state hg
  · intro past s ha _ _ hc h g state hg
    exact s.closed_concluded ha hc h hg
  · intro past s _ _ _ hc h g state hg
    rcases Search.closed_of_cut_states hc g with ⟨_, hn⟩ | ⟨_, hsame⟩
    · cases hn.symm.trans hg
    · exact h g state (hsame.symm.trans hg)

/-- What a prover knows between calls: each goal has one entry at most, and that is final. -/
structure Knowledge.Clean (known : Knowledge) : Prop where
  aligned : Aligned [] known.ledger.get?
  concluded : ∀ g state, known.ledger.get? g = some state → state.Concluded
  distinct : known.ledger.Distinct

theorem Learnt.clean {past : List Search} {known : Knowledge}
    (h : Learnt catalog policy past known) : known.Clean := by
  have distinct := (concluded_invariant catalog policy).kept.and
    (J := fun known => known.ledger.Distinct) (R := fun s => s.ledger.Distinct)
    List.nodup_nil (fun _ _ => List.nodup_nil)
    (fun known ledger hk he => by
      unfold Ledger.Distinct at hk ⊢
      rw [he]
      exact hk)
    (fun _ _ goal _ hk => hk.set goal _) (fun _ _ _ _ _ hs hstep => Search.distinct_running hs hstep)
    (fun _ _ _ _ _ _ hs hstep => by
      obtain ⟨_, _, hcl⟩ := Search.finished_cases hstep
      exact (Search.distinct_closeTop hs).2 _ _ hcl)
  obtain ⟨⟨ha, _, hc⟩, hd⟩ := distinct.learnt h
  exact ⟨ha, hc, hd⟩

namespace Knowledge.Clean

variable {known next : Knowledge}

theorem isFinal (h : known.Clean) {e : Term × GoalState} (he : e ∈ known.ledger.entries) :
    e.2.isResolved = true ∨ e.2.isFailed = true := by
  have hget := h.distinct.get?_of_mem he
  rcases aligned_nil.mp h.aligned e.1 e.2 hget with ⟨p, hp⟩ | ⟨f, hf⟩
  · exact .inl (by rw [hp]; rfl)
  · exact .inr (by rw [hf]; rfl)

/-- A search that the depth bound cuts short leaves its goal without an entry. -/
theorem none_of_depthExceeded (h : known.Clean) {budget : Nat} {goal : Term} {outcome : Outcome}
    (hp : known.prove catalog policy budget goal = some (outcome, next))
    (hd : outcome.isDepthExceeded = true) : next.ledger.get? goal = none := by
  cases known.call catalog policy budget goal with
  | nonGround _ hcall _ =>
    cases hcall.symm.trans hp
    cases hd
  | resolved _ hcall _ =>
    cases hcall.symm.trans hp
    cases hd
  | failed hf hcall _ =>
    cases hcall.symm.trans hp
    have hconcluded := (Failure.isConclusion_seenFrom _ []).trans (h.concluded goal _ hf)
    cases (Failure.not_isDepthExceeded_of_isConclusion hconcluded).symm.trans hd
  | refused _ hr hf _ hcall _ =>
    cases hcall.symm.trans hp
    exact h.aligned.eq_none hr hf
  | searched _ hr hf hcall _ =>
    obtain ⟨_, last, _, _, _, rfl, rfl, hl⟩ :=
      Knowledge.first_last h.aligned hr hf (hcall.symm.trans hp)
    have hcut : last.top.IsCut := Search.verdict_isDepthExceeded.mp hd
    rw [hl]
    rcases @Search.closed_of_cut_states policy last hcut last.top.goal with
      ⟨_, hn⟩ | ⟨hunaffected, _⟩
    · exact hn
    · exact absurd .goal hunaffected

/-- The answer of a call for a ground goal is what the goal's entry says from then on. -/
theorem answered (h : known.Clean) (hnext : next.Clean) {budget : Nat} {goal : Term}
    {outcome : Outcome} (hg : goal.isGround = true)
    (hp : known.prove catalog policy budget goal = some (outcome, next)) :
    (∃ p, outcome = .ok p ∧ next.ledger.get? goal = some (.resolved p)) ∨
      (∃ f stored, outcome = .error f ∧ f.isConclusion = true ∧
        next.ledger.get? goal = some (.failed stored)) ∨
      ∃ f, outcome = .error f ∧ f.isDepthExceeded = true ∧ next.ledger.get? goal = none := by
  rcases Knowledge.prove_answered h.aligned hp with ⟨hn, _⟩ | hd | ha
  · cases hn.symm.trans hg
  · have hnone := h.none_of_depthExceeded hp hd
    cases outcome with
    | ok p => cases hd
    | error f => exact .inr (.inr ⟨f, rfl, hd, hnone⟩)
  · cases ha with
    | @resolved p hr => exact .inl ⟨p, rfl, hr⟩
    | @failed stored cause hf hs =>
      have hconcluded : cause.isConclusion = true :=
        hs.isConclusion.trans (hnext.concluded goal _ hf)
      exact .inr (.inl ⟨cause, stored, rfl, hconcluded, hf⟩)

end Knowledge.Clean

/-- Between calls every entry is final, and right after a call for a ground goal the goal's status
tells how the call ended. A goal with variables is refused without a trace. -/
theorem clean_between_calls {V : Type} {past : List Search} {s : Prover V}
    (hs : Session catalog policy past s) :
    (∀ e ∈ s.known.ledger.entries, e.2.isResolved = true ∨ e.2.isFailed = true) ∧
    s.stats.entries = s.stats.resolved + s.stats.failed ∧
    ∀ budget goal answer next, s.compile budget goal = some (answer, next) →
      (goal.isGround = false → answer = .error (.nonGroundGoal goal) ∧ next = s) ∧
      (goal.isGround = true →
        ((∃ plan, answer = .ok plan) ↔ next.status goal = .resolved) ∧
        ((∃ f, answer = .error f ∧ f.isConclusion = true) ↔ ∃ f, next.status goal = .failed f) ∧
        ((∃ f, answer = .error f ∧ f.isDepthExceeded = true) ↔ next.status goal = .unstarted)) := by
  have hclean := hs.learnt.2.2.clean
  have hfinal : ∀ e ∈ s.known.ledger.entries, e.2.isResolved = true ∨ e.2.isFailed = true :=
    fun e he => hclean.isFinal he
  refine ⟨hfinal, Ledger.stats_entries hfinal, fun budget goal answer next hc => ?_⟩
  have hnext := (hs.compile hc).learnt.2.2.clean
  obtain ⟨outcome, known, hp, rfl, rfl⟩ := Prover.compile_outcome hc
  constructor
  · intro hg
    have hrefused : s.known.prove s.catalog s.policy budget goal =
        some (.error (.nonGroundGoal goal), s.known) := by simp [Knowledge.prove, hg]
    cases hrefused.symm.trans hp
    exact ⟨rfl, rfl⟩
  · intro hg
    rcases hclean.answered hnext hg hp with
      ⟨p, rfl, hget⟩ | ⟨f, stored, rfl, hf, hget⟩ | ⟨f, rfl, hf, hget⟩
    · simp [Prover.status, Ledger.status, hget, Except.map]
    · have hnot := Failure.not_isDepthExceeded_of_isConclusion hf
      simp [Prover.status, Ledger.status, hget, Except.map, hf, hnot]
    · have hnot : f.isConclusion = false := by
        cases f <;> first | rfl | cases hf
      simp [Prover.status, Ledger.status, hget, Except.map, hf, hnot]

theorem knot_clean : ∃ plan next,
    (Prover.start knotCatalog Policy.default : Prover Unit).compile 9 (.const "Edge") =
      some (.ok plan, next) ∧ next.status (.const "Edge") = .resolved ∧
      next.stats.entries = next.stats.resolved + next.stats.failed ∧ next.stats.entries = 2 := by
  have hok : ((Prover.start knotCatalog Policy.default : Prover Unit).compile 9
      (.const "Edge")).any (fun a => a.1.isOk && a.2.stats.entries == 2) = true := by decide
  obtain ⟨⟨answer, next⟩, h, ha⟩ := Option.any_eq_true _ _ |>.mp hok
  obtain ⟨hplan, hcount⟩ := Bool.and_eq_true_iff.mp ha
  cases answer with
  | error f => cases hplan
  | ok plan =>
    have hs : Session knotCatalog Policy.default [] (.start knotCatalog Policy.default) :=
      .start (V := Unit)
    have hstatus := (clean_between_calls hs).2.2 9 _ _ _ h
    have hstats := clean_between_calls (.compile .start h)
    exact ⟨plan, next, h, ((hstatus.2 rfl).1).mp ⟨plan, rfl⟩, hstats.2.1, by simpa using hcount⟩

end Clausal
