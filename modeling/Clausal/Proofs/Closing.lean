import Clausal.Proofs.Affected
import Clausal.Proofs.Moves

namespace Clausal

/-- The depth bound cut some rule of the frame short. -/
def Frame.IsCut (f : Frame) : Prop :=
  ∃ failure, cutShort? f.attempted = some failure

/-- The frame at `i`, or one above it, is cut short by the depth bound. -/
def CutFrom (frames : List Frame) (i : Nat) : Prop :=
  ∃ j f, i ≤ j ∧ frames[j]? = some f ∧ f.IsCut

theorem Frame.isCut_iff {f : Frame} :
    f.IsCut ↔ ∃ a ∈ f.attempted, ∃ c, a.cause? = some c ∧ c.isDepthExceeded = true := by
  unfold IsCut cutShort?
  rw [← Option.isSome_iff_exists, List.find?_isSome]
  simp only [List.mem_filterMap]
  constructor
  · rintro ⟨c, ⟨a, ha, hc⟩, hd⟩
    exact ⟨a, ha, c, hc, hd⟩
  · rintro ⟨a, ha, c, hc, hd⟩
    exact ⟨c, ⟨a, ha, hc⟩, hd⟩

theorem mostSpecific?_mem {successes : List Success} {s : Success}
    (h : mostSpecific? successes = some s) : s ∈ successes := by
  unfold mostSpecific? at h
  dsimp only at h
  split at h
  next w hw =>
    cases h
    have hm : w ∈ successes.zipIdx := by
      have hf : w ∈ [w] := List.mem_singleton_self w
      rw [← hw] at hf
      exact (List.mem_filter.mp hf).1
    exact List.fst_mem_of_mem_zipIdx hm
  · simp at h

theorem Policy.choose?_mem {policy : Policy} {successes : List Success} {s : Success}
    (h : policy.choose? successes = some s) : s ∈ successes := by
  unfold choose? at h
  split at h
  · simp at h
  · exact mostSpecific?_mem h

/-- A frame that is not cut short has a proof by one of its successes, or fails for a reason of its
own. -/
theorem Frame.outcome_cases (f : Frame) (policy : Policy) (chain : GoalChain) :
    (∃ failure, cutShort? f.attempted = some failure ∧ failure.isDepthExceeded = true ∧
      f.outcome policy chain = .error failure) ∨
    (¬f.IsCut ∧ f.successes = [] ∧
      f.outcome policy chain = .error (unproved f.goal chain f.attempted)) ∨
    (¬f.IsCut ∧ 2 ≤ f.successes.length ∧ policy.choose? f.successes = none ∧
      f.outcome policy chain =
        .error (.ambiguous f.goal chain (f.successes.map fun s => s.rule.name))) ∨
    (¬f.IsCut ∧ ∃ s, (f.successes = [s] ∨
        2 ≤ f.successes.length ∧ policy.choose? f.successes = some s) ∧
      f.outcome policy chain = .ok (f.proofBy s)) := by
  unfold outcome IsCut
  cases hc : cutShort? f.attempted with
  | some failure => exact .inl ⟨failure, rfl, List.find?_some hc, rfl⟩
  | none =>
    have hn : ¬∃ failure, (none : Option Failure) = some failure := by simp
    cases hs : f.successes with
    | nil => exact .inr (.inl ⟨hn, rfl, rfl⟩)
    | cons s rest =>
      cases rest with
      | nil => exact .inr (.inr (.inr ⟨hn, s, .inl rfl, rfl⟩))
      | cons s' rest =>
        cases hp : policy.choose? (s :: s' :: rest) with
        | none =>
          refine .inr (.inr (.inl ⟨hn, by simp, rfl, ?_⟩))
          simp only [hp]
        | some w =>
          refine .inr (.inr (.inr ⟨hn, w, .inr ⟨by simp, rfl⟩, ?_⟩))
          simp only [hp]

/-- Where no candidate proves a goal, the failure lists all attempts or names a cycle. -/
theorem unproved_cases (goal : Term) (chain : GoalChain) (attempted : List Attempt) :
    unproved goal chain attempted = .noRule goal chain attempted ∨
      ∃ cycleGoal rules, unproved goal chain attempted = .cyclicRule cycleGoal chain rules := by
  unfold unproved
  dsimp only
  split
  · exact .inl rfl
  · split
    · exact .inr ⟨_, _, rfl⟩
    · exact .inl rfl

theorem unproved_isDepthExceeded (goal : Term) (chain : GoalChain) (attempted : List Attempt) :
    (unproved goal chain attempted).isDepthExceeded = false := by
  rcases unproved_cases goal chain attempted with he | ⟨_, _, he⟩
  · rw [he]
    rfl
  · rw [he]
    rfl

theorem Frame.outcome_isDepthExceeded {f : Frame} {policy : Policy} {chain : GoalChain} :
    (f.outcome policy chain).isDepthExceeded = true ↔ f.IsCut := by
  rcases f.outcome_cases policy chain with ⟨c, hc, hd, ho⟩ | ⟨hn, _, ho⟩ | ⟨hn, _, _, ho⟩ | ⟨hn, s, _, ho⟩
  · simp [ho, Outcome.isDepthExceeded, hd, IsCut, hc]
  · simp [ho, Outcome.isDepthExceeded, unproved_isDepthExceeded, hn]
  · simp [ho, Outcome.isDepthExceeded, Failure.isDepthExceeded, hn]
  · simp [ho, Outcome.isDepthExceeded, hn]

theorem Frame.outcome_ok {f : Frame} {policy : Policy} {chain : GoalChain} {p : Proof}
    (h : f.outcome policy chain = .ok p) : ¬f.IsCut ∧ ∃ s ∈ f.successes, p = f.proofBy s := by
  rcases f.outcome_cases policy chain with ⟨c, _, _, ho⟩ | ⟨_, _, ho⟩ | ⟨_, _, _, ho⟩ | ⟨hn, s, hs, ho⟩
  · simp [ho] at h
  · simp [ho] at h
  · simp [ho] at h
  · rw [ho] at h
    cases h
    refine ⟨hn, s, ?_, rfl⟩
    rcases hs with hs | ⟨_, hs⟩
    · simp [hs]
    · exact Policy.choose?_mem hs

/-- A state that rests on frame `low` from now on, if it rested on some frame before. -/
def GoalState.restOn (low : Nat) : GoalState → GoalState
  | .provisional _ outcome chain => .provisional low outcome chain
  | state => state

/-- What becomes of a state once the goal it rests on is done. -/
def GoalState.confirm? (succeeded : Bool) : GoalState → Option GoalState
  | .provisional _ (.ok p) _ => some (.resolved p)
  | .provisional _ (.error f) _ => if succeeded then none else some (.failed f)
  | state => some state

/-- What becomes of a state when the frame at `n`, which rests on frame `low`, closes. -/
def GoalState.close? (n low : Nat) (succeeded : Bool) : GoalState → Option GoalState
  | .provisional k outcome chain =>
    if k = n then
      if low < n then some (.provisional low outcome chain)
      else GoalState.confirm? succeeded (.provisional k outcome chain)
    else some (.provisional k outcome chain)
  | state => some state

/-- A state that is still there once a frame has closed was there before, unless it rested on the
frame. -/
theorem GoalState.close?_provisional {n low : Nat} {succeeded : Bool} {state : GoalState} {k : Nat}
    {o : Outcome} {chain : GoalChain}
    (h : state.close? n low succeeded = some (.provisional k o chain)) :
    (state = .provisional k o chain ∧ k ≠ n) ∨
      (state = .provisional n o chain ∧ low < n ∧ k = low) := by
  cases state with
  | provisional k' o' chain' =>
    simp only [GoalState.close?] at h
    split at h
    next hk =>
      split at h
      next hl =>
        cases h
        exact .inr ⟨by rw [hk], hl, rfl⟩
      next =>
        cases o' with
        | ok p => simp [GoalState.confirm?] at h
        | error f => cases succeeded <;> simp [GoalState.confirm?] at h
    next hk =>
      cases h
      exact .inl ⟨rfl, hk⟩
  | inProgress frame id => simp [GoalState.close?] at h
  | resolved p => simp [GoalState.close?] at h
  | failed f => simp [GoalState.close?] at h

theorem GoalState.close?_inProgress {n low : Nat} {succeeded : Bool} {state : GoalState} {i : Nat}
    {id : ProofId} (h : state.close? n low succeeded = some (.inProgress i id)) :
    state = .inProgress i id := by
  cases state with
  | provisional k o chain =>
    simp only [GoalState.close?] at h
    split at h
    · split at h
      · simp at h
      · cases o with
        | ok p => simp [GoalState.confirm?] at h
        | error f => cases succeeded <;> simp [GoalState.confirm?] at h
    · simp at h
  | inProgress frame id => simpa [GoalState.close?] using h
  | resolved p => simp [GoalState.close?] at h
  | failed f => simp [GoalState.close?] at h

theorem GoalState.close?_resolved {n low : Nat} {succeeded : Bool} {state : GoalState} {p : Proof}
    (h : state.close? n low succeeded = some (.resolved p)) :
    state = .resolved p ∨ ∃ chain, state = .provisional n (.ok p) chain ∧ ¬low < n := by
  cases state with
  | provisional k o chain =>
    simp only [GoalState.close?] at h
    split at h
    next hk =>
      subst hk
      split at h
      · simp at h
      next hl =>
        cases o with
        | ok q =>
          obtain rfl : q = p := by simpa [GoalState.confirm?] using h
          exact .inr ⟨chain, rfl, hl⟩
        | error f => cases succeeded <;> simp [GoalState.confirm?] at h
    next => simp at h
  | inProgress frame id => simp [GoalState.close?] at h
  | resolved q => exact .inl (by simpa [GoalState.close?] using h)
  | failed f => simp [GoalState.close?] at h

theorem GoalState.close?_failed {n low : Nat} {succeeded : Bool} {state : GoalState} {f : Failure}
    (h : state.close? n low succeeded = some (.failed f)) :
    state = .failed f ∨
      ∃ chain, state = .provisional n (.error f) chain ∧ ¬low < n ∧ succeeded = false := by
  cases state with
  | provisional k o chain =>
    simp only [GoalState.close?] at h
    split at h
    next hk =>
      subst hk
      split at h
      · simp at h
      next hl =>
        cases o with
        | ok q => simp [GoalState.confirm?] at h
        | error f' =>
          cases succeeded with
          | true => simp [GoalState.confirm?] at h
          | false =>
            obtain rfl : f' = f := by simpa [GoalState.confirm?] using h
            exact .inr ⟨chain, rfl, hl, rfl⟩
    next => simp at h
  | inProgress frame id => simp [GoalState.close?] at h
  | resolved q => simp [GoalState.close?] at h
  | failed f' => exact .inl (by simpa [GoalState.close?] using h)

namespace Ledger

theorem get?_restOn (low : Nat) (ledger : Ledger) (x g : Term) :
    (restOn low ledger x).get? g =
      if g = x then (ledger.get? g).map (GoalState.restOn low) else ledger.get? g := by
  unfold restOn
  split
  next k outcome chain h =>
    rw [get?_set]
    by_cases hg : g = x
    · simp [hg, h, GoalState.restOn]
    · simp [hg]
  next h =>
    by_cases hg : g = x
    · subst hg
      rw [if_pos rfl]
      cases hs : ledger.get? g with
      | none => rfl
      | some state =>
        cases state with
        | provisional k outcome chain => exact absurd hs (h k outcome chain)
        | _ => rfl
    · rw [if_neg hg]

theorem get?_fold_restOn (low : Nat) (gs : List Term) (ledger : Ledger) (g : Term) :
    (gs.foldl (restOn low) ledger).get? g =
      if g ∈ gs then (ledger.get? g).map (GoalState.restOn low) else ledger.get? g := by
  have twice : ∀ state : GoalState, (state.restOn low).restOn low = state.restOn low := by
    intro state
    cases state <;> rfl
  induction gs generalizing ledger with
  | nil => simp
  | cons x gs ih =>
    rw [List.foldl_cons, ih, get?_restOn]
    by_cases hg : g ∈ gs
    · by_cases hx : g = x
      · rw [if_pos hg, if_pos hx, if_pos (List.mem_cons_of_mem x hg), Option.map_map]
        exact congrArg (Option.map · (ledger.get? g)) (funext twice)
      · rw [if_pos hg, if_neg hx, if_pos (List.mem_cons_of_mem x hg)]
    · simp [hg]

theorem get?_confirm (succeeded : Bool) (ledger : Ledger) (x g : Term) :
    (confirm succeeded ledger x).get? g =
      if g = x then (ledger.get? g).bind (GoalState.confirm? succeeded) else ledger.get? g := by
  unfold confirm
  by_cases hg : g = x
  · subst hg
    rw [if_pos rfl]
    cases hs : ledger.get? g with
    | none => exact hs
    | some state =>
      cases state with
      | provisional k outcome chain =>
        cases outcome with
        | ok p => simp [get?_set, GoalState.confirm?]
        | error f =>
          cases succeeded
          · simp [get?_set, GoalState.confirm?]
          · simp [get?_erase, GoalState.confirm?]
      | inProgress frame id => exact hs
      | resolved p => exact hs
      | failed f => exact hs
  · rw [if_neg hg]
    split
    · rw [get?_set, if_neg hg]
    · split
      · rw [get?_erase, if_neg hg]
      · rw [get?_set, if_neg hg]
    · rfl

theorem get?_fold_confirm (succeeded : Bool) (gs : List Term) (ledger : Ledger) (g : Term) :
    (gs.foldl (confirm succeeded) ledger).get? g =
      if g ∈ gs then (ledger.get? g).bind (GoalState.confirm? succeeded) else ledger.get? g := by
  have twice : ∀ state : GoalState, (state.confirm? succeeded).bind (GoalState.confirm? succeeded) =
      state.confirm? succeeded := by
    intro state
    cases state with
    | provisional k outcome chain =>
      cases outcome with
      | ok p => rfl
      | error f => cases succeeded <;> rfl
    | _ => rfl
  induction gs generalizing ledger with
  | nil => simp
  | cons x gs ih =>
    rw [List.foldl_cons, ih, get?_confirm]
    by_cases hg : g ∈ gs
    · by_cases hx : g = x
      · rw [if_pos hg, if_pos hx, if_pos (List.mem_cons_of_mem x hg), Option.bind_assoc]
        exact congrArg (Option.bind (ledger.get? g)) (funext twice)
      · rw [if_pos hg, if_neg hx, if_pos (List.mem_cons_of_mem x hg)]
    · simp [hg]

end Ledger

namespace Search

variable {s : Search}

/-- The ledger once the failure of the top frame, if it fails, has spread. -/
def spread (s : Search) (outcome : Outcome) : Ledger :=
  match outcome with
  | .ok _ => s.ledger
  | .error f => s.ledger.spreadFailure f s.top.goal s.top.parked (s.below.flatMap Frame.parked)

/-- The state under which an outcome is final. -/
def finalState : Outcome → GoalState
  | .ok p => .resolved p
  | .error f => .failed f

/-- A frame that the depth bound cut short leaves no entry of its own. -/
theorem keep_of_cut {outcome : Outcome} (h : outcome.isDepthExceeded = true) :
    s.keep outcome = (s.spread outcome, s.below) := by
  unfold keep
  simp only [h, if_true]
  cases outcome <;> rfl

theorem keep_of_provisional {outcome : Outcome} (h : outcome.isDepthExceeded = false)
    (hlow : s.top.low < s.below.length) :
    (s.keep outcome).2 = s.below.modify s.top.low (Frame.park (s.top.goal :: s.top.parked)) ∧
      ∀ g, (s.keep outcome).1.get? g =
        if g = s.top.goal then
          some (.provisional s.top.low outcome (s.below.map Frame.goal))
        else if g ∈ s.top.parked then
          ((s.spread outcome).get? g).map (GoalState.restOn s.top.low)
        else (s.spread outcome).get? g := by
  have hk : s.keep outcome =
      (((s.top.parked.foldl (Ledger.restOn s.top.low) (s.spread outcome)).set s.top.goal
        (.provisional s.top.low outcome (s.below.map Frame.goal))),
        s.below.modify s.top.low (Frame.park (s.top.goal :: s.top.parked))) := by
    unfold keep
    simp only [h, Bool.false_eq_true, if_false, hlow, if_true]
    cases outcome <;> rfl
  rw [hk]
  refine ⟨rfl, fun g => ?_⟩
  simp only
  rw [Ledger.get?_set, Ledger.get?_fold_restOn]

theorem keep_of_final {outcome : Outcome} (h : outcome.isDepthExceeded = false)
    (hlow : ¬s.top.low < s.below.length) :
    (s.keep outcome).2 = s.below ∧
      ∀ g, (s.keep outcome).1.get? g =
        if g = s.top.goal then some (finalState outcome)
        else if g ∈ s.top.parked then
          ((s.spread outcome).get? g).bind (GoalState.confirm? outcome.succeeded)
        else (s.spread outcome).get? g := by
  have hk : s.keep outcome =
      (s.top.parked.foldl (Ledger.confirm outcome.succeeded)
        ((s.spread outcome).set s.top.goal (finalState outcome)), s.below) := by
    unfold keep
    simp only [h, Bool.false_eq_true, if_false, hlow]
    cases outcome <;> rfl
  rw [hk]
  refine ⟨rfl, fun g => ?_⟩
  simp only
  rw [Ledger.get?_fold_confirm, Ledger.get?_set]
  by_cases hg : g = s.top.goal
  · simp only [if_pos hg]
    split
    · cases outcome <;> rfl
    · rfl
  · simp only [if_neg hg]

end Search

end Clausal
