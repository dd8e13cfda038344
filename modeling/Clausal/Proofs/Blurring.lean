import Clausal.Search

namespace Clausal

theorem rel_of_map_eq {α β : Type} {f : α → β} {a b : Option α} (h : b.map f = a.map f) :
    Option.Rel (fun x y => f y = f x) a b := by
  cases a with
  | none =>
    rw [Option.map_none, Option.map_eq_none_iff] at h
    rw [h]
    exact .none
  | some x =>
    rw [Option.map_some, Option.map_eq_some_iff] at h
    obtain ⟨y, rfl, he⟩ := h
    exact .some he

/-- A discrepancy without the variable of which it names two bindings. -/
def Discrepancy.blurred : Discrepancy → Discrepancy
  | .constructor expected found => .constructor expected found
  | .arity ctor expected found => .arity ctor expected found
  | .conflict _ bound found => .conflict ⟨0, ""⟩ bound found
  | .rigid expected => .rigid expected
  | .notGround => .notGround

def Mismatch.blurred (m : Mismatch) : Mismatch :=
  { m with cause := m.cause.blurred }

mutual

/-- A failure without the variables of conflicting bindings, at whatever level. All else that it
tells is kept. -/
def Failure.blurred : Failure → Failure
  | .noRule goal chain attempted => .noRule goal chain (Failure.blurredAttempts attempted)
  | .ambiguous goal chain candidates => .ambiguous goal chain candidates
  | .cyclicRule goal chain rules => .cyclicRule goal chain rules
  | .depthExceeded goal chain limit => .depthExceeded goal chain limit
  | .nonGroundGoal goal => .nonGroundGoal goal
  | .invocation goal rule source => .invocation goal rule source
  | .valueType goal expected => .valueType goal expected

def Failure.blurredAttempts : List Attempt → List Attempt
  | [] => []
  | a :: rest => a.blurred :: Failure.blurredAttempts rest

def Attempt.blurred : Attempt → Attempt
  | .mismatch rule reason => .mismatch rule reason.blurred
  | .unbound rule v => .unbound rule v
  | .cycle rule requirement goal => .cycle rule requirement goal
  | .subgoal rule requirement goal cause => .subgoal rule requirement goal cause.blurred

end

theorem Failure.blurredAttempts_eq (attempted : List Attempt) :
    Failure.blurredAttempts attempted = attempted.map Attempt.blurred := by
  induction attempted with
  | nil => rfl
  | cons a rest ih => rw [blurredAttempts, ih, List.map_cons]

namespace Failure

theorem chain?_blurred (f : Failure) : f.blurred.chain? = f.chain? := by
  cases f <;> rfl

theorem isDepthExceeded_blurred (f : Failure) : f.blurred.isDepthExceeded = f.isDepthExceeded := by
  cases f <;> rfl

mutual

theorem blurred_relocateFrom (old new : GoalChain) (depth : Nat) : (f : Failure) →
    (f.relocateFrom old new depth).blurred = f.blurred.relocateFrom old new depth
  | .noRule goal chain attempted => by
    simp only [relocateFrom, blurred, blurred_relocateAttempts old new depth attempted]
  | .ambiguous _ _ _ => rfl
  | .cyclicRule _ _ _ => rfl
  | .depthExceeded _ _ _ => rfl
  | .nonGroundGoal _ => rfl
  | .invocation _ _ _ => rfl
  | .valueType _ _ => rfl

theorem blurred_relocateAttempts (old new : GoalChain) (depth : Nat) :
    (attempted : List Attempt) → blurredAttempts (relocateAttempts old new depth attempted) =
      relocateAttempts old new depth (blurredAttempts attempted)
  | [] => rfl
  | a :: rest => by
    simp only [relocateAttempts, blurredAttempts, blurred_relocateCause old new depth a,
      blurred_relocateAttempts old new depth rest]

theorem blurred_relocateCause (old new : GoalChain) (depth : Nat) : (a : Attempt) →
    (a.relocateCause old new depth).blurred = a.blurred.relocateCause old new depth
  | .mismatch _ _ => rfl
  | .unbound _ _ => rfl
  | .cycle _ _ _ => rfl
  | .subgoal rule requirement goal cause => by
    cases depth with
    | zero => rfl
    | succ depth =>
      simp only [Attempt.relocateCause, Attempt.blurred, blurred_relocateFrom old new depth cause]

end

theorem blurred_seenFrom (f : Failure) (chain : GoalChain) :
    (f.seenFrom chain).blurred = f.blurred.seenFrom chain := by
  simp only [seenFrom, chain?_blurred]
  cases f.chain? with
  | none => rfl
  | some old =>
    by_cases h : old = chain
    · simp only [h, if_true]
    · simp only [h, if_false, blurred_relocateFrom]

theorem seenFrom_alike {f f' : Failure} (h : f'.blurred = f.blurred) (chain : GoalChain) :
    (f'.seenFrom chain).blurred = (f.seenFrom chain).blurred := by
  rw [blurred_seenFrom, blurred_seenFrom, h]

end Failure

namespace Attempt

theorem rule_blurred (a : Attempt) : a.blurred.rule = a.rule := by
  cases a <;> rfl

theorem unified_blurred (a : Attempt) : a.blurred.unified = a.unified := by
  cases a <;> rfl

theorem cause?_blurred (a : Attempt) : a.blurred.cause? = a.cause?.map Failure.blurred := by
  cases a <;> rfl

theorem cycleGoal?_blurred (a : Attempt) : a.blurred.cycleGoal? = a.cycleGoal? := by
  cases a with
  | subgoal rule requirement goal cause => cases cause <;> rfl
  | _ => rfl

end Attempt

theorem cutShort?_blurred (attempted : List Attempt) :
    cutShort? (attempted.map Attempt.blurred) = (cutShort? attempted).map Failure.blurred := by
  have hcauses : (attempted.map Attempt.blurred).filterMap Attempt.cause? =
      (attempted.filterMap Attempt.cause?).map Failure.blurred := by
    have h : Attempt.cause? ∘ Attempt.blurred = fun a => a.cause?.map Failure.blurred :=
      funext Attempt.cause?_blurred
    rw [List.filterMap_map, h, List.map_filterMap]
  have hdepth : Failure.isDepthExceeded ∘ Failure.blurred = Failure.isDepthExceeded :=
    funext Failure.isDepthExceeded_blurred
  rw [cutShort?, hcauses, List.find?_map, hdepth, cutShort?]

theorem blurred_unproved (goal : Term) (chain : GoalChain) (attempted : List Attempt) :
    (unproved goal chain attempted).blurred =
      unproved goal chain (attempted.map Attempt.blurred) := by
  have hunified : (attempted.map Attempt.blurred).filter Attempt.unified =
      (attempted.filter Attempt.unified).map Attempt.blurred := by
    have h : Attempt.unified ∘ Attempt.blurred = Attempt.unified := funext Attempt.unified_blurred
    rw [List.filter_map, h]
  have hhead : ((attempted.filter Attempt.unified).map Attempt.blurred).head?.bind
      Attempt.cycleGoal? = (attempted.filter Attempt.unified).head?.bind Attempt.cycleGoal? := by
    cases attempted.filter Attempt.unified with
    | nil => rfl
    | cons a rest => exact a.cycleGoal?_blurred
  have hrules : ((attempted.filter Attempt.unified).map Attempt.blurred).map Attempt.rule =
      (attempted.filter Attempt.unified).map Attempt.rule := by
    rw [List.map_map]
    exact List.map_congr_left fun a _ => a.rule_blurred
  simp only [unproved, hunified, hhead, hrules, List.all_map, Function.comp_def,
    Attempt.cycleGoal?_blurred]
  cases (attempted.filter Attempt.unified).head?.bind Attempt.cycleGoal? with
  | none => simp only [Failure.blurred, Failure.blurredAttempts_eq]
  | some cycleGoal =>
    dsimp only
    split
    · rfl
    · simp only [Failure.blurred, Failure.blurredAttempts_eq]

def Outcome.blurred : Outcome → Outcome
  | .ok p => .ok p
  | .error f => .error f.blurred

def GoalState.blurred : GoalState → GoalState
  | .inProgress frame id => .inProgress frame id
  | .provisional low outcome chain => .provisional low outcome.blurred chain
  | .resolved p => .resolved p
  | .failed f => .failed f.blurred

theorem Outcome.succeeded_blurred (o : Outcome) : o.blurred.succeeded = o.succeeded := by
  cases o <;> rfl

theorem Outcome.isDepthExceeded_blurred (o : Outcome) :
    o.blurred.isDepthExceeded = o.isDepthExceeded := by
  cases o with
  | ok p => rfl
  | error f => exact f.isDepthExceeded_blurred

namespace Ledger

def blurred (ledger : Ledger) : Ledger :=
  { ledger with entries := ledger.entries.map fun e => (e.1, e.2.blurred) }

theorem get?_blurred (ledger : Ledger) (goal : Term) :
    ledger.blurred.get? goal = (ledger.get? goal).map GoalState.blurred := by
  obtain ⟨entries, _, _⟩ := ledger
  simp only [blurred, get?]
  induction entries with
  | nil => rfl
  | cons e rest ih =>
    rw [List.map_cons, List.lookup_cons, List.lookup_cons]
    cases goal == e.1 with
    | true => rfl
    | false => exact ih

theorem blurred_erase (ledger : Ledger) (goal : Term) :
    (ledger.erase goal).blurred = ledger.blurred.erase goal := by
  simp only [blurred, erase, List.filter_map, Function.comp_def]

theorem blurred_set (ledger : Ledger) (goal : Term) (state : GoalState) :
    (ledger.set goal state).blurred = ledger.blurred.set goal state.blurred := by
  have h := congrArg Ledger.entries (ledger.blurred_erase goal)
  simp only [blurred] at h
  simp only [blurred, set, List.map_cons, h]

theorem blurred_restOn (low : Nat) (ledger : Ledger) (goal : Term) :
    (ledger.restOn low goal).blurred = ledger.blurred.restOn low goal := by
  simp only [restOn, get?_blurred]
  cases ledger.get? goal with
  | none => rfl
  | some state =>
    cases state with
    | provisional _ outcome chain => exact ledger.blurred_set goal _
    | _ => rfl

theorem blurred_confirm (succeeded : Bool) (ledger : Ledger) (goal : Term) :
    (ledger.confirm succeeded goal).blurred = ledger.blurred.confirm succeeded goal := by
  simp only [confirm, get?_blurred]
  cases ledger.get? goal with
  | none => rfl
  | some state =>
    cases state with
    | provisional _ outcome chain =>
      cases outcome with
      | ok p => exact ledger.blurred_set goal _
      | error f =>
        cases succeeded with
        | true => exact ledger.blurred_erase goal
        | false => exact ledger.blurred_set goal _
    | _ => rfl

/-- What is done to one entry after the other is done alike to the blurred entries. -/
theorem blurred_foldl {change : Ledger → Term → Ledger}
    (h : ∀ ledger goal, (change ledger goal).blurred = change ledger.blurred goal)
    (goals : List Term) (ledger : Ledger) :
    (goals.foldl change ledger).blurred = goals.foldl change ledger.blurred := by
  induction goals generalizing ledger with
  | nil => rfl
  | cons goal rest ih => rw [List.foldl_cons, ih, h, List.foldl_cons]

theorem isProvisionalFailure_blurred (ledger : Ledger) (goal : Term) :
    ledger.blurred.isProvisionalFailure goal = ledger.isProvisionalFailure goal := by
  simp only [isProvisionalFailure, get?_blurred]
  cases ledger.get? goal with
  | none => rfl
  | some state =>
    cases state with
    | provisional _ outcome _ => cases outcome <;> rfl
    | _ => rfl

theorem stats_blurred (ledger : Ledger) : ledger.blurred.stats = ledger.stats := by
  have hresolved : ∀ state : GoalState, state.blurred.isResolved = state.isResolved := by
    intro state
    cases state <;> rfl
  have hfailed : ∀ state : GoalState, state.blurred.isFailed = state.isFailed := by
    intro state
    cases state <;> rfl
  simp only [stats, blurred, List.length_map, List.countP_map, Function.comp_def, hresolved,
    hfailed]

end Ledger

namespace Spread

def blurred (s : Spread) : Spread :=
  { s with ledger := s.ledger.blurred }

theorem blurred_visit (f : Failure) (s : Spread) (goal : Term) :
    (visit f s goal).blurred = visit f.blurred s.blurred goal := by
  obtain ⟨ledger, failing, changed⟩ := s
  simp only [visit, blurred, Ledger.get?_blurred]
  by_cases hfailing : failing.contains goal = true
  · simp only [hfailing, if_true]
  · simp only [hfailing, Bool.false_eq_true, if_false]
    cases ledger.get? goal with
    | none => rfl
    | some state =>
      cases state with
      | provisional low outcome chain =>
        cases outcome with
        | error g => rfl
        | ok p =>
          simp only [Option.map_some, GoalState.blurred, Outcome.blurred]
          cases p.firstInto? failing with
          | none => rfl
          | some found =>
            simp only [Ledger.blurred_set]
            rfl
      | _ => rfl

theorem blurred_sweep (f : Failure) (parked : List Term) (s : Spread) :
    (sweep f parked s).blurred = sweep f.blurred parked s.blurred := by
  have hfold : ∀ s : Spread,
      (parked.foldl (visit f) s).blurred = parked.foldl (visit f.blurred) s.blurred := by
    induction parked with
    | nil => intro s; rfl
    | cons goal rest ih =>
      intro s
      rw [List.foldl_cons, ih, blurred_visit, List.foldl_cons]
  exact hfold _

theorem blurred_close (f : Failure) (parked : List Term) (budget : Nat) (s : Spread) :
    (close f parked budget s).blurred = close f.blurred parked budget s.blurred := by
  induction budget generalizing s with
  | zero => rfl
  | succ budget ih =>
    have hchanged : (sweep f.blurred parked s.blurred).changed = (sweep f parked s).changed := by
      rw [← blurred_sweep]
      rfl
    simp only [close, hchanged]
    split
    · rw [ih, blurred_sweep]
    · exact blurred_sweep f parked s

end Spread

theorem Ledger.blurred_spreadFailure (ledger : Ledger) (f : Failure) (goal : Term)
    (own lower : List Term) : (ledger.spreadFailure f goal own lower).blurred =
      ledger.blurred.spreadFailure f.blurred goal own lower := by
  have hparked : ledger.blurred.isProvisionalFailure = ledger.isProvisionalFailure :=
    funext ledger.isProvisionalFailure_blurred
  simp only [spreadFailure, f.isDepthExceeded_blurred, hparked]
  generalize hs : Spread.close f _ _ _ = spread
  generalize hs' : Spread.close f.blurred _ _ _ = spread'
  have hspread : spread' = spread.blurred := by
    rw [← hs, Spread.blurred_close, ← hs']
    rfl
  rw [hspread]
  split
  · exact blurred_foldl Ledger.blurred_erase spread.failing spread.ledger
  · rfl

namespace Knowledge

variable {known known' : Knowledge}

def blurred (known : Knowledge) : Knowledge :=
  { known with ledger := known.ledger.blurred }

theorem ledger_alike (h : known'.blurred = known.blurred) :
    known'.ledger.blurred = known.ledger.blurred :=
  congrArg ledger h

theorem table_alike (h : known'.blurred = known.blurred) : known'.table = known.table := by
  have htable := congrArg table h
  exact htable

theorem hit_alike (h : known'.blurred = known.blurred) :
    blurred { known' with ledger := known'.ledger.hit } =
      blurred { known with ledger := known.ledger.hit } :=
  congrArg (fun k : Knowledge => { k with ledger := k.ledger.hit }) h

theorem miss_alike (h : known'.blurred = known.blurred) :
    blurred { known' with ledger := known'.ledger.miss } =
      blurred { known with ledger := known.ledger.miss } :=
  congrArg (fun k : Knowledge => { k with ledger := k.ledger.miss }) h

end Knowledge

/-- Two outcomes that differ in the variables of conflicting bindings only. -/
inductive Outcome.Alike : Outcome → Outcome → Prop
  | ok (p : Proof) : Alike (.ok p) (.ok p)
  | error {f f' : Failure} : f'.blurred = f.blurred → Alike (.error f) (.error f')

/-- Two answers to a requirement that differ in the variables of conflicting bindings only. -/
inductive AnsweredAlike : Except Blocked Link → Except Blocked Link → Prop
  | linked (link : Link) : AnsweredAlike (.ok link) (.ok link)
  | cycle : AnsweredAlike (.error .cycle) (.error .cycle)
  | failed {f f' : Failure} : f'.blurred = f.blurred →
      AnsweredAlike (.error (.failed f)) (.error (.failed f'))

/-- Two states of a goal that differ in the variables of conflicting bindings only. -/
inductive GoalState.Alike : GoalState → GoalState → Prop
  | inProgress (frame : Nat) (id : ProofId) : Alike (.inProgress frame id) (.inProgress frame id)
  | provisional (low : Nat) {o o' : Outcome} (chain : GoalChain) : o.Alike o' →
      Alike (.provisional low o chain) (.provisional low o' chain)
  | resolved (p : Proof) : Alike (.resolved p) (.resolved p)
  | failed {f f' : Failure} : f'.blurred = f.blurred → Alike (.failed f) (.failed f')

theorem Outcome.alike_of_blurred {o o' : Outcome} (h : o'.blurred = o.blurred) : o.Alike o' := by
  cases o with
  | ok p =>
    cases o' with
    | ok p' =>
      cases h
      exact .ok p
    | error f' => cases h
  | error f =>
    cases o' with
    | ok p' => cases h
    | error f' => exact .error (Except.error.inj h)

theorem Outcome.asLink_alike {o o' : Outcome} (h : o'.blurred = o.blurred) :
    AnsweredAlike o.asLink o'.asLink := by
  cases alike_of_blurred h with
  | ok p => exact .linked _
  | error hf => exact .failed hf

theorem GoalState.alike_of_blurred {state state' : GoalState}
    (h : state'.blurred = state.blurred) : state.Alike state' := by
  cases state with
  | inProgress frame id =>
    cases state' with
    | inProgress frame' id' =>
      cases h
      exact .inProgress frame id
    | _ => cases h
  | provisional low o chain =>
    cases state' with
    | provisional low' o' chain' =>
      simp only [blurred, provisional.injEq] at h
      obtain ⟨rfl, ho, rfl⟩ := h
      exact .provisional low' chain' (Outcome.alike_of_blurred ho)
    | _ => cases h
  | resolved p =>
    cases state' with
    | resolved p' =>
      cases h
      exact .resolved p
    | _ => cases h
  | failed f =>
    cases state' with
    | failed f' => exact .failed (GoalState.failed.inj h)
    | _ => cases h

namespace Ledger

variable {ledger ledger' : Ledger}

/-- Ledgers that differ in the variables of conflicting bindings only know the same of each goal,
but for these variables. -/
theorem alike_of_blurred (h : ledger'.blurred = ledger.blurred) (goal : Term) :
    Option.Rel GoalState.Alike (ledger.get? goal) (ledger'.get? goal) := by
  have hget : (ledger'.get? goal).map GoalState.blurred =
      (ledger.get? goal).map GoalState.blurred := by
    rw [← get?_blurred, ← get?_blurred, h]
  have hrel := rel_of_map_eq hget
  generalize ledger.get? goal = a, ledger'.get? goal = b at hrel ⊢
  cases hrel with
  | none => exact .none
  | some hstate => exact .some (GoalState.alike_of_blurred hstate)

theorem spreadFailure_alike (h : ledger'.blurred = ledger.blurred) {f f' : Failure}
    (hf : f'.blurred = f.blurred) (goal : Term) (own lower : List Term) :
    (ledger'.spreadFailure f' goal own lower).blurred =
      (ledger.spreadFailure f goal own lower).blurred := by
  rw [blurred_spreadFailure, blurred_spreadFailure, h, hf]

theorem restOn_alike (h : ledger'.blurred = ledger.blurred) {state state' : GoalState}
    (hs : state'.blurred = state.blurred) (low : Nat) (goal : Term) (own : List Term) :
    ((own.foldl (restOn low) ledger').set goal state').blurred =
      ((own.foldl (restOn low) ledger).set goal state).blurred := by
  simp only [blurred_set, blurred_foldl (blurred_restOn low), h, hs]

theorem confirm_alike (h : ledger'.blurred = ledger.blurred) {state state' : GoalState}
    (hs : state'.blurred = state.blurred) (succeeded : Bool) (goal : Term) (own : List Term) :
    (own.foldl (confirm succeeded) (ledger'.set goal state')).blurred =
      (own.foldl (confirm succeeded) (ledger.set goal state)).blurred := by
  simp only [blurred_set, blurred_foldl (blurred_confirm succeeded), h, hs]

end Ledger

end Clausal
