import Clausal.Search
import Mathlib.Tactic.ByContra

namespace Clausal

/-- What a ledger holds on each goal. -/
abbrev States := Term → Option GoalState

/-- A failure as it is stored, or as it is seen from elsewhere. -/
def Failure.Shows (f cause : Failure) : Prop :=
  cause = f ∨ ∃ chain, cause = f.seenFrom chain

/-- The answers that a requirement with the given goal may get on a frame at some depth, each with
the lowest stack frame that it rests on. -/
inductive Answers (states : States) (depth : Nat) (r : Requirement) (goal : Term) :
    Except Blocked Link → Nat → Prop
  | back {j id} : states goal = some (.inProgress j id) → r.deferrable = true →
      Answers states depth r goal (.ok (.back id)) j
  | cycle {j id} : states goal = some (.inProgress j id) → r.deferrable = false →
      Answers states depth r goal (.error .cycle) j
  | provisional {low p chain} : states goal = some (.provisional low (.ok p) chain) →
      Answers states depth r goal (.ok (.built p.id)) low
  | resolved {p low} : states goal = some (.resolved p) → depth < low →
      Answers states depth r goal (.ok (.built p.id)) low
  | provisionalFailure {low f chain cause} :
      states goal = some (.provisional low (.error f) chain) → f.Shows cause →
      Answers states depth r goal (.error (.failed cause)) low
  | failed {f cause low} : states goal = some (.failed f) → f.Shows cause → depth < low →
      Answers states depth r goal (.error (.failed cause)) low
  | cut {f low} : states goal = none → f.isDepthExceeded = true →
      Answers states depth r goal (.error (.failed f)) low

/-- The ways in which a frame at some depth gets on without leaving the top of the stack. -/
inductive Frame.Progress (states : States) (depth : Nat) (f : Frame) : Frame → Prop
  | tried {rule rest} : f.trial = none → f.remaining = rule :: rest →
      Progress states depth f (f.tryRule depth rule rest)
  | succeeded {t} : f.trial = some t → t.next? = none → Progress states depth f (f.succeed t)
  | unbound {t r v} : f.trial = some t → t.next? = some r →
      t.subst.apply r.pattern = .error v →
      Progress states depth f (f.giveUp t (.unbound t.rule.name v))
  | received {t r goal answer low} : f.trial = some t → t.next? = some r →
      t.subst.apply r.pattern = .ok goal → Answers states depth r goal answer low →
      Progress states depth f (f.receive goal answer low)

theorem Frame.refer_receive (f : Frame) (goal : Term) (answer : Except Blocked Link) (low : Nat) :
    f.refer.receive goal answer low = (f.receive goal answer low).refer := by
  obtain ⟨own, id, recursive, parked, remaining, own_low, trial, successes, attempted⟩ := f
  cases trial with
  | none => rfl
  | some t =>
    cases answer with
    | ok link => rfl
    | error b => cases b <;> rfl

theorem Policy.refusal?_isDepthExceeded {policy : Policy} {chain : GoalChain} {goal : Term}
    {f : Failure} (h : policy.refusal? chain goal = some f) : f.isDepthExceeded = true := by
  unfold refusal? at h
  split at h
  · cases h
  · split at h
    · cases h
      rfl
    · cases h

namespace Search

variable {catalog : Catalog} {policy : Policy} {s next : Search}

theorem stack_length (s : Search) : s.stack.length = s.depth + 1 := by
  simp [stack, depth]

theorem receive_stack (s : Search) (goal : Term) (answer : Except Blocked Link) (low : Nat) :
    (s.receive goal answer low).stack = s.below ++ [s.top.receive goal answer low] :=
  rfl

/-- A back link changes one frame of the stack, on which it is noted. -/
theorem refer_receive_stack (s : Search) (frame : Nat) (goal : Term)
    (answer : Except Blocked Link) (low : Nat) :
    ((s.refer frame).receive goal answer low).stack =
      (s.below ++ [s.top.receive goal answer low]).modify (min frame s.below.length)
        Frame.refer := by
  unfold refer
  split
  next h =>
    rw [Nat.min_eq_left (Nat.le_of_lt h)]
    refine List.ext_getElem? fun i => ?_
    simp only [receive_stack, List.getElem?_append, List.getElem?_modify, List.length_modify]
    by_cases hi : i < s.below.length
    · simp [hi]
    · have hne : frame ≠ i := by omega
      simp [hi, hne]
  next h =>
    rw [Nat.min_eq_right (Nat.le_of_not_lt h)]
    refine List.ext_getElem? fun i => ?_
    simp only [receive_stack, List.getElem?_append, List.getElem?_modify, Frame.refer_receive]
    by_cases hi : i < s.below.length
    · have hne : s.below.length ≠ i := by omega
      simp [hi, hne]
    · by_cases hz : s.below.length = i
      · simp [hz]
      · have hs : ∃ k, i - s.below.length = k + 1 := ⟨i - s.below.length - 1, by omega⟩
        obtain ⟨k, hk⟩ := hs
        simp [hi, hk]

/-- A requirement is answered from what is known, is refused for its depth, or is searched. -/
theorem meet_cases (catalog : Catalog) (policy : Policy) {t : Trial} {r : Requirement} (ht : s.top.trial = some t)
    (hr : t.next? = some r) :
    ((s.meet catalog policy t r).ledger.get? = s.ledger.get? ∧
      (s.meet catalog policy t r).table = s.table ∧
      ∃ top, s.top.Progress s.ledger.get? s.depth top ∧
        ((s.meet catalog policy t r).stack = s.below ++ [top] ∨
          ∃ j, (s.meet catalog policy t r).stack = (s.below ++ [top]).modify j Frame.refer)) ∨
    ∃ goal, t.subst.apply r.pattern = .ok goal ∧ s.ledger.get? goal = none ∧
      policy.refusal? s.chain goal = none ∧
      s.meet catalog policy t r =
        push catalog { s.toKnowledge with ledger := s.ledger.miss } s.stack goal := by
  unfold meet
  cases ha : t.subst.apply r.pattern with
  | error v => exact .inl ⟨rfl, rfl, _, .unbound ht hr ha, .inl rfl⟩
  | ok goal =>
    dsimp only
    cases hg : s.ledger.get? goal with
    | none =>
      simp only [answer?, hg, descend]
      cases hp : policy.refusal? s.chain goal with
      | none => exact .inr ⟨goal, rfl, hg, hp, rfl⟩
      | some f =>
        have hf := Policy.refusal?_isDepthExceeded hp
        exact .inl ⟨rfl, rfl, _, .received ht hr ha (.cut hg hf), .inl rfl⟩
    | some state =>
      cases state with
      | inProgress frame id =>
        simp only [answer?, hg]
        cases hd : r.deferrable with
        | true =>
          refine .inl ⟨?_, ?_, _, .received ht hr ha (.back hg hd), .inr ?_⟩
          · simp only [if_true, receive, refer]
            split <;> rfl
          · simp only [if_true, receive, refer]
            split <;> rfl
          · exact ⟨_, refer_receive_stack s frame goal (.ok (.back id)) frame⟩
        | false => exact .inl ⟨rfl, rfl, _, .received ht hr ha (.cycle hg hd), .inl rfl⟩
      | provisional low outcome chain =>
        cases outcome with
        | ok p =>
          simp only [answer?, hg]
          exact .inl ⟨rfl, rfl, _, .received ht hr ha (.provisional hg), .inl rfl⟩
        | error f =>
          simp only [answer?, hg]
          exact .inl ⟨rfl, rfl, _,
            .received ht hr ha (.provisionalFailure hg (.inr ⟨s.chain, rfl⟩)), .inl rfl⟩
      | resolved p =>
        simp only [answer?, hg]
        exact .inl ⟨rfl, rfl, _,
          .received ht hr ha (.resolved hg (Nat.lt_succ_self _)), .inl rfl⟩
      | failed f =>
        simp only [answer?, hg]
        exact .inl ⟨rfl, rfl, _,
          .received ht hr ha (.failed hg (.inr ⟨s.chain, rfl⟩) (Nat.lt_succ_self _)), .inl rfl⟩

/-- A step that goes on moves the top frame forward, starts a frame above it, or closes it. -/
theorem running_cases (h : s.step catalog policy = .running next) :
    (next.ledger.get? = s.ledger.get? ∧ next.table = s.table ∧
      ∃ top, s.top.Progress s.ledger.get? s.depth top ∧
        (next.stack = s.below ++ [top] ∨
          ∃ j, next.stack = (s.below ++ [top]).modify j Frame.refer)) ∨
    (∃ t r goal, s.top.trial = some t ∧ t.next? = some r ∧ t.subst.apply r.pattern = .ok goal ∧
      s.ledger.get? goal = none ∧ policy.refusal? s.chain goal = none ∧
      next = push catalog { s.toKnowledge with ledger := s.ledger.miss } s.stack goal) ∨
    (s.top.trial = none ∧ s.top.remaining = [] ∧ s.closeTop policy = .running next) := by
  unfold step at h
  split at h
  next t ht =>
    split at h
    next r hr =>
      cases h
      rcases meet_cases catalog policy ht hr with
        hp | ⟨goal, ha, hg, hp, hm⟩
      · exact .inl hp
      · exact .inr (.inl ⟨t, r, goal, ht, hr, ha, hg, hp, hm⟩)
    next hn =>
      cases h
      exact .inl ⟨rfl, rfl, _, .succeeded ht hn, .inl rfl⟩
  next ht =>
    split at h
    next rule rest hr =>
      cases h
      exact .inl ⟨rfl, rfl, _, .tried ht hr, .inl rfl⟩
    next hr => exact .inr (.inr ⟨ht, hr, h⟩)

/-- A search ends by closing its top frame. -/
theorem finished_cases {outcome : Outcome} {known : Knowledge}
    (h : s.step catalog policy = .finished outcome known) :
    s.top.trial = none ∧ s.top.remaining = [] ∧
      s.closeTop policy = .finished outcome known := by
  unfold step at h
  split at h
  · split at h <;> simp at h
  next ht =>
    split at h
    · simp at h
    next hr => exact ⟨ht, hr, h⟩

/-- The outcome of the top frame, once all its rules have been tried. -/
def verdict (policy : Policy) (s : Search) : Outcome :=
  s.top.outcome policy (s.below.map Frame.goal)

/-- The proofs found, with that of the top frame if it has one. -/
def recorded (policy : Policy) (s : Search) : ProofTable :=
  match s.verdict policy with
  | .ok p => s.table.record p
  | .error _ => s.table

theorem keep_length (s : Search) (outcome : Outcome) :
    (s.keep outcome).2.length = s.below.length := by
  unfold keep
  dsimp only
  split
  · rfl
  · split
    · simp
    · rfl

theorem closeTop_running (h : s.closeTop policy = .running next) :
    ∃ parent, (s.keep (s.verdict policy)).2 = next.below ++ [parent] ∧
      next.ledger = (s.keep (s.verdict policy)).1 ∧ next.table = s.recorded policy ∧
      next.top = parent.receive s.top.goal (s.verdict policy).asLink s.top.low := by
  unfold closeTop at h
  dsimp only at h
  split at h
  · simp at h
  next parent hp =>
    cases h
    obtain ⟨below, hb⟩ := List.getLast?_eq_some_iff.mp hp
    refine ⟨parent, ?_, rfl, rfl, rfl⟩
    rw [verdict, hb]
    simp

theorem closeTop_finished {outcome : Outcome} {known : Knowledge}
    (h : s.closeTop policy = .finished outcome known) :
    s.below = [] ∧ outcome = s.verdict policy ∧ known.ledger = (s.keep outcome).1 ∧
      known.table = s.recorded policy := by
  unfold closeTop at h
  dsimp only at h
  split at h
  next hp =>
    cases h
    have hl := s.keep_length (s.verdict policy)
    rw [verdict, List.getLast?_eq_none_iff.mp hp] at hl
    exact ⟨List.length_eq_zero_iff.mp hl.symm, rfl, rfl, rfl⟩
  · simp at h

end Search

end Clausal
