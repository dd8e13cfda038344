import Clausal.Proofs.Course
import Clausal.Proofs.Justification
import Clausal.Proofs.Rivals
import Clausal.Proofs.Verdicts

namespace Clausal

/-- The goal has a proof, if only for the time being. -/
def Proved (states : States) (goal : Term) : Prop :=
  ∃ p, (states goal).bind GoalState.outcome? = some (.ok p)

/-- The goal has failed for the time being, since no rule gave a proof. -/
def DeniedSoFar (states : States) (goal : Term) : Prop :=
  ∃ k f chain, states goal = some (.provisional k (.error f) chain) ∧ f.denies = true

/-- The head of a rule matches a goal, and every requirement has a proof, if only for the time
being. -/
def Rule.AppliesSoFar (r : Rule) (states : States) (goal : Term) : Prop :=
  ∃ subst, unify goal r.head = .ok subst ∧
    ∀ q ∈ r.body, ∃ x, subst.apply q.pattern = .ok x ∧ Proved states x

/-- A goal has failed for the time being, though a rule applies by the proofs that are known. -/
def Lingers (states : States) (goal : Term) (r : Rule) : Prop :=
  DeniedSoFar states goal ∧ r.AppliesSoFar states goal

section

variable {states : States} {goal : Term} {r : Rule}

instance : Decidable (Proved states goal) :=
  match h : (states goal).bind GoalState.outcome? with
  | some (.ok p) => .isTrue ⟨p, h⟩
  | some (.error _) | none => .isFalse (by simp [Proved, h])

instance : Decidable (DeniedSoFar states goal) :=
  match h : states goal with
  | some (.provisional _ (.error f) _) =>
    decidable_of_iff (f.denies = true) (by simp [DeniedSoFar, h])
  | some (.provisional _ (.ok _) _) | some (.inProgress _ _) | some (.resolved _)
  | some (.failed _) | none => .isFalse (by simp [DeniedSoFar, h])

instance : Decidable (r.AppliesSoFar states goal) :=
  inferInstanceAs (Decidable (∃ subst, unify goal r.head = .ok subst ∧
    ∀ q ∈ r.body, ∃ x, subst.apply q.pattern = .ok x ∧ Proved states x))

instance : Decidable (Lingers states goal r) :=
  inferInstanceAs (Decidable (_ ∧ _))

end

/-- An outcome for the time being leaves a rule out: it is a failure, or the proof by another
rule. -/
def Outcome.Forgoes : Outcome → Rule → Prop
  | .ok p, r => r.id ≠ p.rule
  | .error f, _ => f.denies = true

namespace Search

/-- The frames that go on when the top frame has ended without being cut short. The last one waits
for the outcome. -/
def rest (policy : Policy) (s : Search) : List Frame :=
  (s.keep (s.verdict policy)).2.modify (s.below.length - 1) (Frame.lower s.top.low)

/-- The top frame finds a proof that rests on a frame below. The proof meets a requirement of a
rule, but a goal to which the rule applies keeps the outcome that it has for the time being and that
leaves the rule out. -/
structure Outlasts (policy : Policy) (s : Search) (goal : Term) (r : Rule) : Prop where
  closing : s.Closing
  proved : (s.verdict policy).succeeded = true
  unfinished : s.top.low < s.below.length
  required : ∃ subst, unify goal r.head = .ok subst ∧
    ∃ q ∈ r.body, subst.apply q.pattern = .ok s.top.goal
  kept : ∃ k k' outcome chain, s.ledger.get? goal = some (.provisional k outcome chain) ∧
    s.closed policy goal = some (.provisional k' outcome chain) ∧ s.top.low ≤ k' ∧
      outcome.Forgoes r

/-- The top frame finds a proof that rests on a frame below, and has met another rule, which the
tie-break passes over. -/
structure Outranks (policy : Policy) (s : Search) (goal : Term) (r : Rule) : Prop where
  closing : s.Closing
  ended : s.top.goal = goal
  unfinished : s.top.low < s.below.length
  proved : ∃ p, s.verdict policy = .ok p ∧ r.id ≠ p.rule
  met : ∃ w ∈ s.top.successes, w.rule = r

/-- An outcome is the one that the end of the top frame has left a goal with, or the failure that
came of it when some search state took that proof back. -/
def Leaves (policy : Policy) (past : List Search) (s : Search) (goal : Term) (outcome : Outcome) :
    Prop :=
  (s.closed policy goal).bind GoalState.outcome? = some outcome ∨
    ∃ p f, (s.closed policy goal).bind GoalState.outcome? = some (.ok p) ∧ outcome = .error f ∧
      ∃ e ∈ past, (e.ledger.get? goal).bind GoalState.outcome? = some (.ok p) ∧
        e.TakesBack policy goal f

end Search

/-- The goal has failed, or may fail yet. -/
def Stuck (states : States) (goal : Term) : Prop :=
  HasFailed states goal ∨ Unsettled states goal

/-- The frame of a goal under way, or the one that a provisional outcome rests on. -/
def RestsOn (states : States) (goal : Term) (j : Nat) : Prop :=
  (∃ id, states goal = some (.inProgress j id)) ∨
    ∃ outcome chain, states goal = some (.provisional j outcome chain)

/-- What the goal rests on is not done for good before frame `k` is. -/
def Tied (frames : List Frame) (states : States) (k : Nat) (goal : Term) : Prop :=
  ∀ j, RestsOn states goal j → Covers frames j k

/-- What keeps a rule from proving a goal that rests on frame `k`. -/
def Blocks (frames : List Frame) (states : States) (k : Nat) (goal x : Term) : Prop :=
  x = goal ∨ Stuck states x ∧ Tied frames states k x

/-- An outcome that rests on frame `k` has its reasons: its proof leads to goals tied to the frame,
and a rule that is left out is blocked, or was until a search state that the outcome is left from. -/
structure Reasoned (catalog : Catalog) (policy : Policy) (past : List Search) (frames : List Frame)
    (states : States) (goal : Term) (k : Nat) (outcome : Outcome) : Prop where
  edges : ∀ p, outcome = .ok p → ∀ e ∈ p.edges, Tied frames states k e.goal
  rules : ∀ r ∈ catalog.rules, outcome.Forgoes r → ∀ subst, unify goal r.head = .ok subst →
    r.Lacks subst (Blocks frames states k goal) ∨
      ∃ s ∈ past, (s.Outlasts policy goal r ∨ s.Outranks policy goal r) ∧
        s.Leaves policy past goal outcome

/-- A proof found before each frame that may still get an outcome of its own, so that none of them
can fail it. -/
def Aged (frames : List Frame) (outcome : Outcome) : Prop :=
  ∃ p, outcome = .ok p ∧
    ∀ (i : Nat) (f : Frame), frames[i]? = some f → ¬CutFrom frames i → p.id < f.id

/-- Each provisional outcome has its reasons, or is a proof that is out of danger. -/
def Reasons (catalog : Catalog) (policy : Policy) (past : List Search) (frames : List Frame)
    (states : States) : Prop :=
  ∀ goal k outcome chain, states goal = some (.provisional k outcome chain) →
    Aged frames outcome ∨ Reasoned catalog policy past frames states goal k outcome

section

variable {catalog : Catalog} {policy : Policy} {past : List Search} {frames frames' : List Frame}
  {states states' : States} {goal x : Term} {k : Nat} {outcome : Outcome}

theorem Stuck.ne_none (h : Stuck states x) : states x ≠ none := by
  rcases h with ⟨f, hx⟩ | ⟨j, id, hx⟩ | ⟨k, f, chain, hx⟩ <;> simp [hx]

theorem Stuck.not_proved (h : Stuck states x) : ¬Proved states x := by
  rcases h with ⟨f, hx⟩ | ⟨j, id, hx⟩ | ⟨k, f, chain, hx⟩ <;>
    simp [Proved, hx, GoalState.outcome?]

theorem Hindered.stuck {low high : Nat} (h : Hindered states low high x) : Stuck states x := by
  rcases h with hf | ⟨j, id, hx, _⟩ | ⟨k, f, chain, hx, _⟩
  · exact .inl hf
  · exact .inr (.inl ⟨j, id, hx⟩)
  · exact .inr (.inr ⟨k, f, chain, hx⟩)

theorem Rule.Lacks.not_lingers {r : Rule} {subst : Substitution}
    (hu : unify goal r.head = .ok subst) (h : r.Lacks subst (Blocks frames states k goal)) :
    ¬Lingers states goal r := by
  rintro ⟨⟨_, f, _, hgoal, _⟩, subst', hu', hall⟩
  obtain rfl := Except.ok.inj (hu.symm.trans hu')
  obtain ⟨q, hq, hblocks⟩ := h
  obtain ⟨x, hx, hproved⟩ := hall q hq
  rcases hblocks x hx with rfl | ⟨hstuck, _⟩
  · obtain ⟨p, hp⟩ := hproved
    simp [hgoal, GoalState.outcome?] at hp
  · exact hstuck.not_proved hproved

/-- A goal stays tied while nothing changes of it and frames come to rest on less. -/
theorem Tied.mono (h : Tied frames states k x) (hx : states' x = states x)
    (hf : ∀ (j : Nat) (f : Frame), frames[j]? = some f →
      ∃ f', frames'[j]? = some f' ∧ f'.reach ≤ f.reach) : Tied frames' states' k x := by
  intro j hj
  refine (h j ?_).mono hf
  unfold RestsOn at hj ⊢
  rwa [hx] at hj

theorem Reasoned.mono (h : Reasoned catalog policy past frames states goal k outcome)
    (hs : ∀ x, states x ≠ none → states' x = states x)
    (hedges : ∀ p, outcome = .ok p → ∀ e ∈ p.edges, states e.goal ≠ none)
    (hf : ∀ (j : Nat) (f : Frame), frames[j]? = some f →
      ∃ f', frames'[j]? = some f' ∧ f'.reach ≤ f.reach) :
    Reasoned catalog policy past frames' states' goal k outcome where
  edges p hp e he := (h.edges p hp e he).mono (hs _ (hedges p hp e he)) hf
  rules r hr hout subst hu := by
    refine (h.rules r hr hout subst hu).imp_left fun hl => hl.mono fun x hx => ?_
    refine hx.imp_right fun ⟨hstuck, htied⟩ => ?_
    have hsame := hs x hstuck.ne_none
    refine ⟨?_, htied.mono hsame hf⟩
    unfold Stuck HasFailed Unsettled at hstuck ⊢
    rwa [hsame]

theorem Aged.mono (h : Aged frames outcome)
    (hf : ∀ (i : Nat) (f : Frame), frames'[i]? = some f → ¬CutFrom frames' i →
      (∃ f₀, frames[i]? = some f₀ ∧ f.id = f₀.id ∧ ¬CutFrom frames i) ∨
        ∀ p, outcome = .ok p → p.id < f.id) : Aged frames' outcome := by
  obtain ⟨p, hp, hage⟩ := h
  refine ⟨p, hp, fun i f hfr hc => ?_⟩
  rcases hf i f hfr hc with ⟨f₀, hf₀, hid, hc₀⟩ | hnew
  · rw [hid]
    exact hage i f₀ hf₀ hc₀
  · exact hnew p hp

theorem Search.Leaves.later {e : Search} (h : e.Leaves policy past goal outcome) (s : Search) :
    e.Leaves policy (past ++ [s]) goal outcome := by
  refine h.imp_right ?_
  rintro ⟨p, f, hclosed, hout, e', he', htaken⟩
  exact ⟨p, f, hclosed, hout, e', List.mem_append_left _ he', htaken⟩

theorem Reasons.later (h : Reasons catalog policy past frames states) (s : Search) :
    Reasons catalog policy (past ++ [s]) frames states := by
  intro goal k outcome chain hst
  refine (h goal k outcome chain hst).imp_right fun ⟨hedges, hrules⟩ => ⟨hedges, ?_⟩
  intro r hr hout subst hu
  refine (hrules r hr hout subst hu).imp_right ?_
  rintro ⟨e, he, hcase, hleaves⟩
  exact ⟨e, List.mem_append_left _ he, hcase, hleaves.later s⟩

theorem Warranted.edge_ne_none {table : ProofTable} (h : Warranted frames states table)
    {chain : GoalChain} (hst : states goal = some (.provisional k outcome chain)) {p : Proof}
    (hp : outcome = .ok p) {e : Edge} (he : e ∈ p.edges) : states e.goal ≠ none := by
  subst hp
  obtain ⟨_, _, hb⟩ := h.provisional goal k p chain hst
  exact (hb e he).ne_none

theorem Reasons.push {table : ProofTable} (h : Reasons catalog policy past frames states)
    (hw : Warranted frames states table) (hg : states goal = none)
    (hs : ∀ g, states' g = if g = goal then some (.inProgress frames.length table.size)
      else states g) :
    Reasons catalog policy past (frames ++ [Frame.start catalog frames.length goal table.size])
      states' := by
  intro g k outcome chain hst
  have hold : states g = some (.provisional k outcome chain) := by
    rw [hs] at hst
    split at hst
    · cases hst
    · exact hst
  refine (h g k outcome chain hold).imp ?_ ?_
  · refine fun hage => hage.mono fun i f hf hc => ?_
    rcases getElem?_concat_cases hf with ⟨_, hf⟩ | ⟨_, rfl⟩
    · exact .inl ⟨f, hf, rfl, fun hh => hc hh.concat⟩
    · refine .inr fun p hp => ?_
      subst hp
      exact ProofTable.lt_size_of_get? (hw.provisional g k p chain hold).2.1
  · refine fun hr => hr.mono ?_ (fun p hp e he => hw.edge_ne_none hold hp he) ?_
    · intro x hx
      rw [hs, if_neg]
      rintro rfl
      exact hx hg
    · exact fun j f hf => ⟨f, getElem?_concat_below hf, le_rfl⟩

theorem Reasons.progress {below : List Frame} {top top' : Frame} {table : ProofTable}
    (h : Reasons catalog policy past (below ++ [top]) states)
    (hw : Warranted (below ++ [top]) states table)
    (hp : top.Progress states below.length top') :
    Reasons catalog policy past (below ++ [top']) states := by
  intro g k outcome chain hst
  refine (h g k outcome chain hst).imp ?_ ?_
  · refine fun hage => hage.mono fun i f hf hc => .inl ?_
    have hc₀ : ¬CutFrom (below ++ [top]) i := fun hh => hc (hh.progress hp)
    rcases getElem?_concat_cases hf with ⟨_, hf⟩ | ⟨rfl, rfl⟩
    · exact ⟨f, getElem?_concat_below hf, rfl, hc₀⟩
    · exact ⟨top, getElem?_concat_top, hp.same.2.1, hc₀⟩
  · refine fun hr => hr.mono (fun _ _ => rfl) (fun p hp e he => hw.edge_ne_none hst hp he) ?_
    intro j f hf
    rcases getElem?_concat_cases hf with ⟨_, hf⟩ | ⟨rfl, rfl⟩
    · exact ⟨f, getElem?_concat_below hf, le_rfl⟩
    · exact ⟨top', getElem?_concat_top, hp.reach_le⟩

theorem Reasons.refer {table : ProofTable} (h : Reasons catalog policy past frames states)
    (hw : Warranted frames states table) (j : Nat) :
    Reasons catalog policy past (frames.modify j Frame.refer) states := by
  intro g k outcome chain hst
  refine (h g k outcome chain hst).imp ?_ ?_
  · refine fun hage => hage.mono fun i f hf hc => .inl ?_
    obtain ⟨f₀, hf₀, ht⟩ := getElem?_refer hf
    exact ⟨f₀, hf₀, ht.id, fun hh => hc hh.refer⟩
  · refine fun hr => hr.mono (fun _ _ => rfl) (fun p hp e he => hw.edge_ne_none hst hp he) ?_
    intro i f hf
    obtain ⟨f', hf', ht⟩ := exists_getElem?_refer j hf
    exact ⟨f', hf', ht.trails.reach_le⟩

end

namespace Search

variable {catalog : Catalog} {policy : Policy} {past : List Search} {s : Search} {goal x : Term}
  {k k' : Nat} {outcome : Outcome} {chain : GoalChain}

theorem restsOn_closed (ha : Aligned s.stack s.ledger.get?) (hc : ¬s.top.IsCut)
    (h : RestsOn (s.closed policy) x k') : ∃ k, RestsOn s.ledger.get? x k ∧ s.Moved k k' := by
  have ho : (s.verdict policy).isDepthExceeded = false := not_verdict_isDepthExceeded hc
  rcases h with ⟨id, hx⟩ | ⟨outcome, chain, hx⟩
  · obtain ⟨hne, hold⟩ := keep_inProgress ha hc ho hx
    refine ⟨k', .inl ⟨id, hold⟩, .inl ⟨rfl, ?_⟩⟩
    rcases Nat.lt_or_eq_of_le (le_of_inProgress ha hold) with hlt | rfl
    · exact hlt
    · exact absurd (inProgress_top ha hold).1 hne
  · rcases keep_provisional ha hc ho hx with ⟨hne, o, hold⟩ | ⟨hlow, rfl, hmem⟩
    · have hle := le_of_provisional ha hold
      exact ⟨k', .inr ⟨o, chain, hold⟩, .inl ⟨rfl, by omega⟩⟩
    · refine ⟨s.below.length, ?_, .inr ⟨rfl, rfl, hlow⟩⟩
      rcases List.mem_cons.mp hmem with rfl | hmem
      · exact .inl ⟨s.top.id, top_framed ha⟩
      · exact .inr (ha.parked _ s.top x getElem?_concat_top (not_cutFrom_top hc) hmem)

/-- Whatever goes on once the top frame has ended is not done for good before the frame that this
one rests on. -/
theorem tied_low (ha : Aligned s.stack s.ledger.get?) (hs : s.Closing) (hc : ¬s.top.IsCut) :
    Tied (s.rest policy) (s.closed policy) s.top.low x := by
  intro j' hj'
  obtain ⟨j, _, hmoved⟩ := restsOn_closed ha hc hj'
  exact covers_keep ha hs.1 (not_verdict_isDepthExceeded hc) hmoved (.inr le_rfl)

theorem tied_closed (ha : Aligned s.stack s.ledger.get?) (hs : s.Closing) (hc : ¬s.top.IsCut)
    (hk : s.Moved k k') (h : Tied s.stack s.ledger.get? k x) :
    Tied (s.rest policy) (s.closed policy) k' x := by
  rcases hk with ⟨rfl, _⟩ | ⟨_, rfl, _⟩
  · intro j' hj'
    obtain ⟨j, hj, hmoved⟩ := restsOn_closed ha hc hj'
    exact covers_keep ha hs.1 (not_verdict_isDepthExceeded hc) hmoved (.inl (h j hj))
  · exact tied_low ha hs hc

/-- A failure for the time being is there still when the top frame has ended, unless it rested on
the frame, which has a proof for good. -/
theorem stuck_of_spread (ha : Aligned s.stack s.ledger.get?) (hc : ¬s.top.IsCut)
    (hgoal : x ≠ s.top.goal) {f : Failure}
    (hx : (s.spread (s.verdict policy)).get? x = some (.provisional k (.error f) chain)) :
    Stuck (s.closed policy) x ∨ (s.verdict policy).succeeded = true ∧ k = s.below.length ∧
      s.below.length ≤ s.top.low := by
  have hclosed : s.closed policy x = ((s.spread (s.verdict policy)).get? x).bind
      (GoalState.close? s.below.length s.top.low (s.verdict policy).succeeded) :=
    keep_states ha hc (not_verdict_isDepthExceeded hc) hgoal
  rw [hx] at hclosed
  by_cases hk : k = s.below.length
  · by_cases hlow : s.top.low < s.below.length
    · refine .inl (.inr (.inr ⟨s.top.low, f, chain, ?_⟩))
      simpa [GoalState.close?, hk, hlow] using hclosed
    · cases hok : (s.verdict policy).succeeded with
      | true => exact .inr ⟨rfl, hk, Nat.le_of_not_lt hlow⟩
      | false =>
        refine .inl (.inl ⟨f, ?_⟩)
        simpa [GoalState.close?, hk, hlow, GoalState.confirm?, hok] using hclosed
  · refine .inl (.inr (.inr ⟨k, f, chain, ?_⟩))
    simpa [GoalState.close?, hk] using hclosed

/-- A goal is no longer stuck only because the top frame has a proof: the goal is the frame's own,
or failed on the frame, which is done for good. -/
theorem succeeded_of_not_stuck (ha : Aligned s.stack s.ledger.get?) (hc : ¬s.top.IsCut)
    (hx : Stuck s.ledger.get? x) (hlost : ¬Stuck (s.closed policy) x) :
    (s.verdict policy).succeeded = true ∧ RestsOn s.ledger.get? x s.below.length ∧
      (x = s.top.goal ∨ s.below.length ≤ s.top.low) := by
  have ho : (s.verdict policy).isDepthExceeded = false := not_verdict_isDepthExceeded hc
  by_cases hgoal : x = s.top.goal
  · subst hgoal
    refine ⟨?_, .inl ⟨s.top.id, top_framed ha⟩, .inl rfl⟩
    cases hv : s.verdict policy with
    | ok p => rfl
    | error f =>
      have htop := keep_top (s := s) ho
      rw [hv] at htop
      refine absurd ?_ hlost
      split at htop
      · exact .inr (.inr ⟨_, f, _, by rw [closed, hv, htop]⟩)
      · exact .inl ⟨f, by rw [closed, hv, htop]; rfl⟩
  · rcases hx with hfailed | ⟨j, id, hx⟩ | ⟨k, f, chain, hx⟩
    · exact absurd (.inl (hasFailed_keep ha hc ho hfailed)) hlost
    · refine absurd (.inr (.inl ⟨j, id, ?_⟩)) hlost
      rw [closed, keep_states ha hc ho hgoal, (spread_inProgress ho).mpr hx]
      rfl
    · have hsame : (s.spread (s.verdict policy)).get? x = some (.provisional k (.error f) chain) := by
        rcases spread_cases ho x with hspread | ⟨_, _, _, _, _, _, hp, _⟩
        · exact hspread.trans hx
        · cases hx.symm.trans hp
      rcases stuck_of_spread ha hc hgoal hsame with hstuck | ⟨hok, rfl, hlast⟩
      · exact absurd hstuck hlost
      · exact ⟨hok, .inr ⟨_, chain, hx⟩, .inr hlast⟩

/-- What the failure of the top frame reaches has failed once the frame has ended. -/
theorem stuck_of_affected (ha : Aligned s.stack s.ledger.get?) (hc : ¬s.top.IsCut) {f : Failure}
    (hv : s.verdict policy = .error f) (hx : s.Affected false x) : Stuck (s.closed policy) x := by
  by_contra hlost
  have hfailed : (s.verdict policy).succeeded ≠ true := by simp [hv, Outcome.succeeded]
  have hf : f.isDepthExceeded = false := by
    have ho : (s.verdict policy).isDepthExceeded = false := not_verdict_isDepthExceeded hc
    rwa [hv] at ho
  rcases Ledger.get?_spreadFailure_of_affected hf hx with
    ⟨_, rfl | ⟨k, f', chain, hprov⟩⟩ | ⟨k, p, chain, i, e, hprov, _, hspread⟩
  · have hstuck : Stuck s.ledger.get? s.top.goal := .inr (.inl ⟨_, _, top_framed ha⟩)
    exact hfailed (succeeded_of_not_stuck ha hc hstuck hlost).1
  · have hstuck : Stuck s.ledger.get? x := .inr (.inr ⟨k, f', chain, hprov⟩)
    exact hfailed (succeeded_of_not_stuck ha hc hstuck hlost).1
  · have hgoal : x ≠ s.top.goal := by
      rintro rfl
      cases (top_framed ha).symm.trans hprov
    have hconverted : (s.spread (s.verdict policy)).get? x =
        some (.provisional k (.error (Spread.convert f x chain p i e.goal)) chain) := by
      rw [hv]
      exact hspread
    rcases stuck_of_spread ha hc hgoal hconverted with hstuck | ⟨hok, _⟩
    · exact hlost hstuck
    · exact hfailed hok

/-- A proof that the failure of the top frame reaches leads to a goal that it reaches. -/
theorem Affected.edge {p : Proof} (h : s.Affected false goal)
    (hst : s.ledger.get? goal = some (.provisional k (.ok p) chain)) (hne : goal ≠ s.top.goal) :
    ∃ e ∈ p.edges, s.Affected false e.goal := by
  cases h with
  | goal => exact absurd rfl hne
  | own hcut _ => cases hcut
  | failure _ he => cases hst.symm.trans he
  | leads _ hp he hedge =>
    cases hst.symm.trans hp
    exact ⟨_, he, hedge⟩

/-- A provisional outcome is the top frame's own, or was known before, or is a proof that the
failure of the frame has reached. -/
theorem provisional_closed (ha : Aligned s.stack s.ledger.get?) (hs : s.Closing) (hc : ¬s.top.IsCut)
    (hst : s.closed policy goal = some (.provisional k' outcome chain)) :
    (goal = s.top.goal ∧ k' = s.top.low ∧ s.top.low < s.below.length ∧
        s.verdict policy = outcome) ∨
      goal ≠ s.top.goal ∧ ∃ k before, s.Moved k k' ∧
        s.ledger.get? goal = some (.provisional k before chain) ∧
        (outcome = before ∨ ∃ p f f', before = .ok p ∧ s.verdict policy = .error f ∧
          outcome = .error f' ∧ s.Affected false goal ∧ s.TakesBack policy goal f') := by
  have ho : (s.verdict policy).isDepthExceeded = false := not_verdict_isDepthExceeded hc
  by_cases hgoal : goal = s.top.goal
  · rw [hgoal, closed, keep_top ho] at hst
    split at hst
    next hlow =>
      cases hst
      exact .inl ⟨hgoal, rfl, hlow, rfl⟩
    next => cases hv : s.verdict policy <;> rw [hv] at hst <;> cases hst
  · obtain ⟨k, hk, hspread⟩ := moved_of_keep ha hc ho hgoal hst
    refine .inr ⟨hgoal, k, ?_⟩
    rcases spread_cases ho goal with hsame | ⟨k₀, p, c, f, hv, haffected, hp, i, e, he, hconv⟩
    · exact ⟨outcome, hk, hsame.symm.trans hspread, .inl rfl⟩
    · cases hspread.symm.trans hconv
      have htaken : s.TakesBack policy goal (Spread.convert f goal chain p i e.goal) :=
        ⟨hs, hc, f, k, p, chain, i, e, hv, hp, he, rfl⟩
      exact ⟨.ok p, hk, hp, .inr ⟨p, f, _, rfl, hv, rfl, haffected, htaken⟩⟩

/-- A rule that is blocked stays so when the top frame ends, unless the frame's proof, which is not
final, meets a requirement of it. -/
theorem lacks_or_outlasts (ha : Aligned s.stack s.ledger.get?) (hs : s.Closing) (hc : ¬s.top.IsCut)
    (hst : s.ledger.get? goal = some (.provisional k outcome chain)) (hk : s.Moved k k')
    (hkept : (s.verdict policy).succeeded = true →
      s.closed policy goal = some (.provisional k' outcome chain))
    {r : Rule} {subst : Substitution} (hu : unify goal r.head = .ok subst)
    (hout : outcome.Forgoes r) (hl : r.Lacks subst (Blocks s.stack s.ledger.get? k goal)) :
    r.Lacks subst (Blocks (s.rest policy) (s.closed policy) k' goal) ∨
      s.Outlasts policy goal r := by
  obtain ⟨q, hq, hblocks⟩ := hl
  by_cases hall : ∀ x, subst.apply q.pattern = .ok x →
      Blocks (s.rest policy) (s.closed policy) k' goal x
  · exact .inl ⟨q, hq, hall⟩
  push Not at hall
  obtain ⟨x, hx, hfree⟩ := hall
  obtain ⟨hstuck, htied⟩ := (hblocks x hx).resolve_left fun he => hfree (.inl he)
  have hlost : ¬Stuck (s.closed policy) x :=
    fun hstill => hfree (.inr ⟨hstill, tied_closed ha hs hc hk htied⟩)
  obtain ⟨hok, hrests, hcase⟩ := succeeded_of_not_stuck ha hc hstuck hlost
  -- What is tied to a goal that stays provisional cannot be done for good.
  have hcovers := le_of_covers_top hs.1 (htied _ hrests)
  have hlow : s.top.low < s.below.length := by
    rcases hk with ⟨_, hlt⟩ | ⟨_, _, hlow⟩ <;> omega
  have hle : s.top.low ≤ k' := by
    rcases hk with ⟨rfl, hlt⟩ | ⟨_, rfl, _⟩ <;> omega
  obtain rfl : x = s.top.goal := hcase.resolve_right (Nat.not_le_of_lt hlow)
  exact .inr ⟨hs, hok, hlow, ⟨subst, hu, q, hq, hx⟩, k, k', outcome, chain, hst, hkept hok, hle, hout⟩

/-- A rule that the outcome of the top frame leaves out is blocked, or the frame has met it. -/
theorem reasoned_of_ended (hi : catalog.Indexed) (ha : Aligned s.stack s.ledger.get?)
    (hacc : Accounted catalog s.stack s.ledger.get?) (hs : s.Closing) (hc : ¬s.top.IsCut)
    (hlow : s.top.low < s.below.length) :
    Reasoned catalog policy (past ++ [s]) (s.rest policy) (s.closed policy) s.top.goal s.top.low
      (s.verdict policy) where
  edges _ _ _ _ := tied_low ha hs hc
  rules := by
    intro r hr hout subst hu
    by_cases hmet : ∃ w ∈ s.top.successes, w.rule = r
    · obtain ⟨p, hv⟩ : ∃ p, s.verdict policy = .ok p := by
        cases hv : s.verdict policy with
        | ok p => exact ⟨p, rfl⟩
        | error f =>
          rw [hv] at hout
          obtain ⟨w, hw, _⟩ := hmet
          simp [Frame.outcome_denies hv hout] at hw
      rw [hv] at hout
      have hleft : (s.closed policy s.top.goal).bind GoalState.outcome? = some (s.verdict policy) := by
        rw [closed, keep_top (not_verdict_isDepthExceeded hc), if_pos hlow]
        rfl
      exact .inr ⟨s, by simp, .inr ⟨hs, rfl, hlow, ⟨p, hv, hout⟩, hmet⟩, .inl hleft⟩
    · push Not at hmet
      have hhalted := halted_of_ended hc hs.1 hs.2 hacc (hi.mem_candidates hr hu) hmet subst hu
      refine .inl (hhalted.mono fun x hx => ?_)
      by_cases hgoal : x = s.top.goal
      · exact .inl hgoal
      refine .inr ⟨?_, tied_low ha hs hc⟩
      by_contra hlost
      rcases (succeeded_of_not_stuck ha hc hx.stuck hlost).2.2 with he | hlast
      · exact hgoal he
      · omega

/-- The rule of a proof is blocked once the failure of the top frame has reached the proof. -/
theorem lacks_of_affected (hi : catalog.Indexed) (ha : Aligned s.stack s.ledger.get?)
    (hg : ProofGraph catalog s.stack s.ledger.get? s.table) (hs : s.Closing) (hc : ¬s.top.IsCut)
    {p : Proof} {f : Failure} (hv : s.verdict policy = .error f)
    (hst : s.ledger.get? goal = some (.provisional k (.ok p) chain)) (hk : s.Moved k k')
    (haffected : s.Affected false goal)
    (hedges : ∀ e ∈ p.edges, Tied s.stack s.ledger.get? k e.goal) {r : Rule}
    (hr : r ∈ catalog.rules) (hrule : r.id = p.rule) {subst : Substitution}
    (hu : unify goal r.head = .ok subst) :
    r.Lacks subst (Blocks (s.rest policy) (s.closed policy) k' goal) := by
  have hne : goal ≠ s.top.goal := by
    rintro rfl
    cases (top_framed ha).symm.trans hst
  obtain ⟨hgoal, hp, _⟩ := hg.warranted.provisional goal k p chain hst
  obtain ⟨r', subst', hfits⟩ := hg.sound.fits p.id p hp
  have hsame : r'.id = r.id := hfits.id.symm.trans hrule.symm
  obtain rfl : r' = r :=
    Option.some.inj ((hi.rule?_id hfits.mem).symm.trans (hsame ▸ hi.rule?_id hr))
  obtain rfl : subst' = subst := Except.ok.inj ((hgoal ▸ hfits.unify).symm.trans hu)
  obtain ⟨e, he, hreached⟩ := haffected.edge hst hne
  obtain ⟨i, hedge⟩ := List.mem_iff_getElem?.mp he
  obtain ⟨q, hq, hmeets⟩ := hfits.meet i e hedge
  refine ⟨q, List.mem_of_getElem? hq, fun x hx => ?_⟩
  obtain rfl : e.goal = x := Except.ok.inj (hmeets.goal.symm.trans hx)
  exact .inr ⟨stuck_of_affected ha hc hv hreached, tied_closed ha hs hc hk (hedges e he)⟩

theorem reasoned_closed (ha : Aligned s.stack s.ledger.get?) (hs : s.Closing) (hc : ¬s.top.IsCut)
    (h : Reasoned catalog policy past s.stack s.ledger.get? goal k outcome)
    (hst : s.ledger.get? goal = some (.provisional k outcome chain)) (hk : s.Moved k k')
    (hkept : s.closed policy goal = some (.provisional k' outcome chain)) :
    Reasoned catalog policy (past ++ [s]) (s.rest policy) (s.closed policy) goal k' outcome where
  edges p hp e he := tied_closed ha hs hc hk (h.edges p hp e he)
  rules := by
    intro r hr hout subst hu
    rcases h.rules r hr hout subst hu with hl | ⟨e, he, hcase⟩
    · refine (lacks_or_outlasts ha hs hc hst hk (fun _ => hkept) hu hout hl).imp_right fun hev => ?_
      exact ⟨s, by simp, .inl hev, .inl (by rw [hkept]; rfl)⟩
    · obtain ⟨hevent, hleaves⟩ := hcase
      exact .inr ⟨e, List.mem_append_left _ he, hevent, hleaves.later s⟩

/-- A proof that the failure of the top frame reaches leaves a failure with reasons of its own. -/
theorem reasoned_of_affected (hi : catalog.Indexed) (ha : Aligned s.stack s.ledger.get?)
    (hg : ProofGraph catalog s.stack s.ledger.get? s.table) (hs : s.Closing) (hc : ¬s.top.IsCut)
    {p : Proof} {f f' : Failure} (hv : s.verdict policy = .error f)
    (h : Reasoned catalog policy past s.stack s.ledger.get? goal k (.ok p))
    (hst : s.ledger.get? goal = some (.provisional k (.ok p) chain)) (hk : s.Moved k k')
    (haffected : s.Affected false goal) (htaken : s.TakesBack policy goal f') :
    Reasoned catalog policy (past ++ [s]) (s.rest policy) (s.closed policy) goal k' (.error f') where
  edges := by
    rintro q hq
    cases hq
  rules := by
    intro r hr _ subst hu
    by_cases hrule : r.id = p.rule
    · exact .inl (lacks_of_affected hi ha hg hs hc hv hst hk haffected (h.edges p rfl) hr hrule hu)
    rcases h.rules r hr hrule subst hu with hl | ⟨e, he, hevent, hleaves⟩
    · have hfailed : (s.verdict policy).succeeded ≠ true := by simp [hv, Outcome.succeeded]
      refine .inl ((lacks_or_outlasts ha hs hc hst hk ?_ hu hrule hl).resolve_right fun hev => ?_)
      · exact fun hok => absurd hok hfailed
      · exact hfailed hev.proved
    · rcases hleaves with hleft | ⟨_, _, _, hout, _⟩
      · refine .inr ⟨e, List.mem_append_left _ he, hevent, .inr ⟨p, f', hleft, rfl, s, by simp, ?_⟩⟩
        exact ⟨by rw [hst]; rfl, htaken⟩
      · cases hout

theorem aged_rest (ha : Aligned s.stack s.ledger.get?) (hc : ¬s.top.IsCut)
    (h : Aged s.stack outcome) : Aged (s.rest policy) outcome := by
  have ho : (s.verdict policy).isDepthExceeded = false := not_verdict_isDepthExceeded hc
  refine h.mono fun i f hf hcut => .inl ?_
  obtain ⟨f₀, hf₀, _, ht, _⟩ := keep_lowered ha ho hf
  exact ⟨f₀, hf₀, ht.id, not_cutFrom_lowered ho hc hcut⟩

/-- The end of a frame that is not cut short leaves each provisional outcome its reasons. -/
theorem reasons_closed (hi : catalog.Indexed) (ha : Aligned s.stack s.ledger.get?)
    (hg : ProofGraph catalog s.stack s.ledger.get? s.table)
    (hacc : Accounted catalog s.stack s.ledger.get?) (hs : s.Closing) (hc : ¬s.top.IsCut)
    (h : Reasons catalog policy past s.stack s.ledger.get?) :
    Reasons catalog policy (past ++ [s]) (s.rest policy) (s.closed policy) := by
  intro goal k' outcome chain hst
  rcases provisional_closed ha hs hc hst with ⟨rfl, rfl, hlow, rfl⟩ |
    ⟨_, k, before, hk, hold, rfl | ⟨p, f, f', rfl, hv, rfl, haffected, htaken⟩⟩
  · exact .inr (reasoned_of_ended hi ha hacc hs hc hlow)
  · exact (h goal k _ chain hold).imp (aged_rest ha hc) fun hr =>
      reasoned_closed ha hs hc hr hold hk hst
  · rcases h goal k _ chain hold with ⟨q, hq, hage⟩ | hr
    · cases hq
      have hyoung := not_affected_of_older ha hg.numbered hg.warranted haffected hold
      exact absurd (hage _ s.top getElem?_concat_top (not_cutFrom_top hc)) hyoung
    · exact .inr (reasoned_of_affected hi ha hg hs hc hv hr hold hk haffected htaken)

/-- A cut drops all that has failed for the time being, and what is left is not failed by any of the
frames that go on. -/
theorem reasons_cut {frames : List Frame} {failure : Failure} (past : List Search)
    (ha : Aligned s.stack s.ledger.get?) (hf : failure.isDepthExceeded = true)
    (hcuts : Cuts (s.spread (.error failure)).get? s.top.low s.below frames) :
    Reasons catalog policy past frames (s.spread (.error failure)).get? := by
  intro goal k outcome chain hst
  have hold := (cut_provisional ha hf hst).1
  have hsafe : ¬s.Affected true goal := by
    intro haffected
    rcases cut_states (s := s) hf goal with ⟨_, hnone⟩ | ⟨hn, _⟩
    · cases hnone.symm.trans hst
    · exact hn haffected
  cases outcome with
  | error f => exact absurd (.failure (mem_parked_of_provisional ha hold) hold) hsafe
  | ok p => exact .inl ⟨p, rfl, fun i f hfr hcut => absurd (hcuts.earlier hfr).1 hcut⟩

end Search

variable {catalog : Catalog} {policy : Policy}

theorem Reasons.nothing {past : List Search} :
    Reasons catalog policy past [] fun _ => none := by
  rintro _ _ _ _ hst
  cases hst

/-- Searches that keep their proofs in order and account for their rules keep the reasons for
provisional outcomes as well. -/
theorem Reasons.invariant {I : List Search → List Frame → States → ProofTable → Prop}
    (hi : catalog.Indexed) (inv : Invariant catalog policy I)
    (hI : ∀ {past frames states table}, I past frames states table →
      ProofGraph catalog frames states table ∧ Accounted catalog frames states) :
    Invariant catalog policy fun past frames states table =>
      I past frames states table ∧ Reasons catalog policy past frames states where
  nothing := ⟨inv.nothing, .nothing⟩
  forget h := ⟨inv.forget h.1, .nothing⟩
  past h := ⟨inv.past h.1, h.2.later _⟩
  push ha h hg hs hn := ⟨inv.push ha h.1 hg hs hn, h.2.push (hI h.1).1.warranted hg hs⟩
  progress ha h hp := ⟨inv.progress ha h.1 hp, h.2.progress (hI h.1).1.warranted hp⟩
  refer j h := ⟨inv.refer j h.1, h.2.refer (hI h.1).1.warranted j⟩
  keep ha h ht hr hc ho := ⟨inv.keep ha h.1 ht hr hc ho,
    Search.reasons_closed hi ha (hI h.1).1 (hI h.1).2 ⟨ht, hr⟩ hc h.2⟩
  cut ha h ht hr hc hv hf hcuts :=
    ⟨inv.cut ha h.1 ht hr hc hv hf hcuts, Search.reasons_cut _ ha hf hcuts⟩

theorem Search.TakesBack.denies {s : Search} {goal : Term} {f : Failure}
    (h : s.TakesBack policy goal f) : f.denies = true := by
  obtain ⟨cause, low, p, chain, i, e, _, _, _, rfl⟩ := h.converted
  rfl

/-- A failure that is left from a search state that kept an outcome denies that a rule gives a
proof. -/
theorem Search.Leaves.denies {past : List Search} {s : Search} {goal : Term} {r : Rule} {f : Failure}
    (h : s.Leaves policy past goal (.error f))
    (hcase : s.Outlasts policy goal r ∨ s.Outranks policy goal r) : f.denies = true := by
  rcases h with hclosed | ⟨_, f', _, hout, e, _, _, htaken⟩
  · rcases hcase with hkept | hranked
    · obtain ⟨_, _, outcome, _, _, hnow, _, hforgoes⟩ := hkept.kept
      rw [hnow] at hclosed
      obtain rfl : outcome = .error f := Option.some.inj hclosed
      exact hforgoes
    · obtain ⟨p, hv, _⟩ := hranked.proved
      have hnow : s.closed policy s.top.goal = some (.provisional s.top.low (.ok p)
          (s.below.map Frame.goal)) := by
        rw [closed, keep_top (by rw [hv]; rfl), if_pos hranked.unfinished, hv]
      rw [← hranked.ended, hnow] at hclosed
      cases hclosed
  · cases hout
    exact htaken.denies

/-- At no moment does a failure linger exactly if no rule applies to a goal of which the failure is
left from a search state that kept an outcome past a proof, not final, that the rule asked for, or that
preferred the proof by another rule. -/
theorem no_failure_lingers_iff {clauses : List (String × Clause)} {V : Type} {past : List Search}
    {s : Prover V} {m : Moment} {reached : List Search} (hb : Catalog.build clauses = .ok catalog)
    (hs : Session catalog policy past s)
    (hreached : Course catalog policy (.idle s.known) reached m) :
    (∀ goal, ∀ r ∈ catalog.rules, ¬Lingers m.states goal r) ↔
      ∀ e ∈ reached, ∀ goal, ∀ r ∈ catalog.rules,
        e.Outlasts policy goal r ∨ e.Outranks policy goal r →
          ∀ k f chain, m.states goal = some (.provisional k (.error f) chain) →
            e.Leaves policy reached goal (.error f) → ¬r.AppliesSoFar m.states goal := by
  have hi := Catalog.build_indexed hb
  have inv := Reasons.invariant hi (accounted_invariant policy hi) id
  obtain ⟨hidle, hinv, _⟩ := inv.kept.learnt hs.learnt.2.2
  -- Between calls nothing is provisional, so that the events to blame are of the course itself.
  have hbegin : Reasons catalog policy [] [] s.known.ledger.get? := by
    intro goal k outcome chain hst
    rcases aligned_nil.mp hidle goal _ hst with ⟨p, hp⟩ | ⟨f, hf⟩
    · cases hp
    · cases hf
  obtain ⟨_, _, hreasons⟩ := hreached.carried inv.toCarried [] hidle ⟨hinv, hbegin⟩
  constructor
  · intro h e _ goal r hr hcase k f chain hst hleaves happ
    exact h goal r hr ⟨⟨k, f, chain, hst, hleaves.denies hcase⟩, happ⟩
  · intro h goal r hr hlingers
    have hfailed := hlingers
    obtain ⟨⟨k, f, chain, hst, hdenies⟩, subst, hu, hmet⟩ := hfailed
    rcases hreasons goal k _ chain hst with ⟨p, hp, _⟩ | hreasoned
    · cases hp
    · rcases hreasoned.rules r hr hdenies subst hu with hl | ⟨e, he, hcase, hleaves⟩
      · exact hl.not_lingers hu hlingers
      · exact h e he goal r hr hcase k f chain hst hleaves ⟨subst, hu, hmet⟩

/-- The middle goal is proved by a promise of the upper one, after the lowest goal has failed for
want of it. -/
def hinge : List (String × Clause) :=
  [("p", ⟨"top", .const "Top", [⟨.const "Mid", false⟩, ⟨.const "Low", false⟩]⟩),
    ("p", ⟨"mid_low", .const "Mid", [⟨.const "Low", false⟩]⟩),
    ("p", ⟨"mid_top", .const "Mid", [⟨.const "Top", true⟩]⟩),
    ("p", ⟨"low", .const "Low", [⟨.const "Mid", false⟩]⟩)]

def hingeCatalog : Catalog where
  rules := [⟨0, "p::top", .const "Top", [⟨.const "Mid", false⟩, ⟨.const "Low", false⟩]⟩,
    ⟨1, "p::mid_low", .const "Mid", [⟨.const "Low", false⟩]⟩,
    ⟨2, "p::mid_top", .const "Mid", [⟨.const "Top", true⟩]⟩,
    ⟨3, "p::low", .const "Low", [⟨.const "Mid", false⟩]⟩]
  index := [("Top", [0]), ("Mid", [1, 2]), ("Low", [3])]
  arities := [("Top", 0), ("Mid", 0), ("Low", 0)]

theorem build_hinge : Catalog.build hinge = .ok hingeCatalog := by decide

theorem hinge_search : ∃ e ∈ Knowledge.empty.trace hingeCatalog Policy.default 15 (.const "Top"),
    ∃ r ∈ hingeCatalog.rules, Lingers e.ledger.get? (.const "Low") r := by
  have hany : (Knowledge.empty.trace hingeCatalog Policy.default 15 (.const "Top")).any
      (fun e => ∃ r ∈ hingeCatalog.rules, Lingers e.ledger.get? (.const "Low") r) = true := by
    decide +kernel
  obtain ⟨e, he, hlingers⟩ := List.any_eq_true.mp hany
  exact ⟨e, he, of_decide_eq_true hlingers⟩

/-- The lowest goal failed while the middle one was under way, and that failure is kept once the
middle one is proved. -/
theorem hinge_low_lingers : Catalog.build hinge = .ok hingeCatalog ∧ ∃ reached e,
    Course hingeCatalog Policy.default (.idle Knowledge.empty) reached (.searching e) ∧
      ∃ r ∈ hingeCatalog.rules, Lingers e.ledger.get? (.const "Low") r := by
  obtain ⟨e, he, hlingers⟩ := hinge_search
  obtain ⟨reached, hcourse⟩ := Course.rest.of_mem_trace he
  exact ⟨build_hinge, reached, e, hcourse, hlingers⟩

theorem hinge_mid_outlasted : ∃ reached m,
    Course hingeCatalog Policy.default (.idle Knowledge.empty) reached m ∧
      ∃ e ∈ reached, ∃ goal, ∃ r ∈ hingeCatalog.rules,
        (e.Outlasts Policy.default goal r ∨ e.Outranks Policy.default goal r) ∧
          ∃ k f chain, m.states goal = some (.provisional k (.error f) chain) ∧
            e.Leaves Policy.default reached goal (.error f) ∧ r.AppliesSoFar m.states goal := by
  obtain ⟨e, he, r, hr, hlingers⟩ := hinge_search
  obtain ⟨reached, hcourse⟩ := Course.rest.of_mem_trace he
  have hs : Session hingeCatalog Policy.default [] (.start hingeCatalog Policy.default) :=
    .start (V := Unit)
  refine ⟨reached, .searching e, hcourse, ?_⟩
  by_contra hnone
  push Not at hnone
  have hall := (no_failure_lingers_iff build_hinge hs hcourse).mpr
    fun e he goal r hr h k f chain hst hleaves => hnone e he goal r hr h k f chain hst hleaves
  exact hall (.const "Low") r hr hlingers

end Clausal
