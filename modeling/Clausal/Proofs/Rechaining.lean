import Clausal.Diagnostic
import Clausal.Proofs.Causes

namespace Clausal

namespace GoalChain

variable {old new chain rest : GoalChain}

theorem relocate_append (old new rest : GoalChain) : relocate old new (old ++ rest) = new ++ rest := by
  simp [relocate]

theorem relocate_own (old new : GoalChain) : relocate old new old = new := by
  simpa using relocate_append old new []

theorem relocate_self (old chain : GoalChain) : relocate old old chain = chain := by
  unfold relocate
  split
  next h =>
    obtain ⟨rest, rfl⟩ := List.isPrefixOf_iff_prefix.mp h
    simp
  next => rfl

end GoalChain

namespace Failure

variable {f g inner : Failure} {old new start chain : GoalChain} {depth level : Nat}

theorem relocateAttempts_eq (old new : GoalChain) (depth : Nat) (attempted : List Attempt) :
    relocateAttempts old new depth attempted =
      attempted.map (Attempt.relocateCause old new depth) := by
  induction attempted with
  | nil => rfl
  | cons a rest ih => simp [relocateAttempts, ih]

theorem chain?_relocateFrom (old new : GoalChain) (depth : Nat) (f : Failure) :
    (f.relocateFrom old new depth).chain? = f.chain?.map (GoalChain.relocate old new) := by
  cases f <;> rfl

theorem attempts_relocateFrom (old new : GoalChain) (depth : Nat) (f : Failure) :
    (f.relocateFrom old new depth).attempts =
      f.attempts.map (Attempt.relocateCause old new depth) := by
  cases f with
  | noRule goal chain attempted => exact relocateAttempts_eq old new depth attempted
  | _ => rfl

theorem kind_relocateFrom (old new : GoalChain) (depth : Nat) (f : Failure) :
    (f.relocateFrom old new depth).kind = f.kind := by
  cases f <;> rfl

theorem goal_relocateFrom (old new : GoalChain) (depth : Nat) (f : Failure) :
    (f.relocateFrom old new depth).goal = f.goal := by
  cases f <;> rfl

theorem message_relocateFrom (old new : GoalChain) (depth : Nat) (f : Failure) :
    (f.relocateFrom old new depth).message = f.message := by
  cases f <;> rfl

theorem candidates_relocateFrom (old new : GoalChain) (depth : Nat) (f : Failure) :
    (f.relocateFrom old new depth).candidates = f.candidates := by
  cases f <;> rfl

/-- A failure is what it is but for chains, with its own chain and its attempts. -/
theorem ext_attempts (hu : f.unchained = g.unchained) (hc : f.chain? = g.chain?)
    (ha : f.attempts = g.attempts) : f = g := by
  cases f <;> cases g <;> simp_all [unchained, chain?, attempts]

theorem relocateCause_zero (old new : GoalChain) (a : Attempt) : a.relocateCause old new 0 = a := by
  cases a <;> rfl

theorem relocateCause_succ {a : Attempt} (old new : GoalChain) (depth : Nat) :
    (a.relocateCause old new (depth + 1)).cause? = a.cause?.map (relocateFrom old new depth) := by
  cases a <;> rfl

theorem relocateFrom_self (old : GoalChain) (depth : Nat) (f : Failure) :
    f.relocateFrom old old depth = f := by
  have hchain : ∀ f : Failure, f.chain?.map (GoalChain.relocate old old) = f.chain? := by
    intro f
    cases f.chain? with
    | none => rfl
    | some chain => rw [Option.map_some, GoalChain.relocate_self]
  induction depth generalizing f with
  | zero =>
    refine ext_attempts (unchained_relocateFrom ..) ((chain?_relocateFrom ..).trans (hchain f)) ?_
    rw [attempts_relocateFrom, List.map_congr_left fun a _ => relocateCause_zero old old a]
    exact List.map_id' _
  | succ depth ih =>
    refine ext_attempts (unchained_relocateFrom ..) ((chain?_relocateFrom ..).trans (hchain f)) ?_
    have hsame : ∀ a : Attempt, a.relocateCause old old (depth + 1) = a := by
      intro a
      cases a with
      | subgoal rule requirement goal cause => simp only [Attempt.relocateCause, ih]
      | _ => rfl
    rw [attempts_relocateFrom, List.map_congr_left fun a _ => hsame a]
    exact List.map_id' _

/-- The chain of the failure, if it has one, starts with the given one. -/
def StartsWith (start : GoalChain) (f : Failure) : Prop :=
  ∀ chain, f.chain? = some chain → start <+: chain

/-- So do the chains of the failures that it tells of, down to some level. -/
def StartsTo (depth : Nat) (start : GoalChain) (f : Failure) : Prop :=
  ∀ level ≤ depth, ∀ inner, f.Tells level inner → inner.StartsWith start

theorem StartsTo.head (h : f.StartsTo depth start) : f.StartsWith start :=
  h 0 (Nat.zero_le depth) f (.self f)

theorem StartsTo.cause {a : Attempt} {cause : Failure} (h : f.StartsTo (depth + 1) start)
    (ha : a ∈ f.attempts) (hc : a.cause? = some cause) : cause.StartsTo depth start :=
  fun level hl inner ht => h (level + 1) (Nat.succ_le_succ hl) inner (.cause ha hc ht)

theorem StartsWith.relocateFrom_twice (h : f.StartsWith old) {mid new : GoalChain}
    (hattempts : ∀ a ∈ f.attempts, (a.relocateCause old mid depth).relocateCause mid new depth =
      a.relocateCause old new depth) :
    (f.relocateFrom old mid depth).relocateFrom mid new depth = f.relocateFrom old new depth := by
  refine ext_attempts ?_ ?_ ?_
  · rw [unchained_relocateFrom, unchained_relocateFrom, unchained_relocateFrom]
  · rw [chain?_relocateFrom, chain?_relocateFrom, chain?_relocateFrom]
    cases hc : f.chain? with
    | none => rfl
    | some chain =>
      obtain ⟨rest, rfl⟩ := h chain hc
      simp only [Option.map_some, GoalChain.relocate_append]
  · rw [attempts_relocateFrom, attempts_relocateFrom, attempts_relocateFrom, List.map_map]
    exact List.map_congr_left hattempts

/-- Relocated twice, a failure is as if relocated at once. -/
theorem StartsTo.relocateFrom_twice (h : f.StartsTo depth old) (mid new : GoalChain) :
    (f.relocateFrom old mid depth).relocateFrom mid new depth = f.relocateFrom old new depth := by
  induction depth generalizing f with
  | zero => exact h.head.relocateFrom_twice fun a _ => by simp only [relocateCause_zero]
  | succ depth ih =>
    refine h.head.relocateFrom_twice fun a ha => ?_
    cases a with
    | subgoal rule requirement goal cause =>
      simp only [Attempt.relocateCause, ih (h.cause ha rfl)]
    | _ => rfl

/-- What a relocated failure tells of is relocated as well, within the levels that are reached. -/
theorem Tells.of_relocateFrom (h : (f.relocateFrom old new depth).Tells level inner)
    (hl : level ≤ depth) :
    ∃ inner₀, f.Tells level inner₀ ∧ inner = inner₀.relocateFrom old new (depth - level) := by
  induction level generalizing f depth with
  | zero => exact ⟨f, .self f, tells_zero.mp h⟩
  | succ level ih =>
    obtain ⟨n, rfl⟩ : ∃ n, depth = n + 1 := ⟨depth - 1, by omega⟩
    obtain ⟨b, hb, cause, hc, ht⟩ := tells_succ.mp h
    rw [attempts_relocateFrom] at hb
    obtain ⟨a, ha, rfl⟩ := List.mem_map.mp hb
    rw [relocateCause_succ] at hc
    obtain ⟨cause₀, hc₀, rfl⟩ := Option.map_eq_some_iff.mp hc
    obtain ⟨inner₀, ht₀, rfl⟩ := ih ht (by omega)
    refine ⟨inner₀, .cause ha hc₀ ht₀, ?_⟩
    rw [Nat.add_sub_add_right]

theorem StartsTo.relocateFrom (h : f.StartsTo depth old) (new : GoalChain) :
    (f.relocateFrom old new depth).StartsTo depth new := by
  intro level hl inner ht chain hc
  obtain ⟨inner₀, ht₀, rfl⟩ := ht.of_relocateFrom hl
  rw [chain?_relocateFrom] at hc
  obtain ⟨chain₀, hc₀, rfl⟩ := Option.map_eq_some_iff.mp hc
  obtain ⟨rest, rfl⟩ := h level hl inner₀ ht₀ chain₀ hc₀
  rw [GoalChain.relocate_append]
  exact List.prefix_append new rest

theorem seenFrom_eq_relocateFrom (hc : f.chain? = some chain) (new : GoalChain) :
    f.seenFrom new = f.relocateFrom chain new causeDepth := by
  unfold seenFrom
  rw [hc]
  dsimp only
  split
  next h =>
    rw [h, relocateFrom_self]
  next => rfl

end Failure

/-- The kinds of failures that arise outside of a search, which have no chain. -/
def outsideKinds : List String :=
  ["non-ground-goal", "invocation", "value-type"]

mutual

/-- The diagnostic with `new` in place of the leading goals `old` of each chain. -/
def Diagnostic.rechained (old new : List String) : Diagnostic → Diagnostic
  | .mk kind goal message chain candidates attempts =>
    .mk kind goal message
      (if outsideKinds.contains kind then chain else new ++ chain.drop old.length) candidates
      (Diagnostic.rechainedAttempts old new attempts)

def Diagnostic.rechainedAttempts (old new : List String) : List AttemptReport → List AttemptReport
  | [] => []
  | a :: rest => a.rechained old new :: Diagnostic.rechainedAttempts old new rest

def AttemptReport.rechained (old new : List String) : AttemptReport → AttemptReport
  | .plain rule reason => .plain rule reason
  | .caused rule reason cause => .caused rule reason (cause.rechained old new)

end

theorem Diagnostic.rechainedAttempts_eq (old new : List String) (attempts : List AttemptReport) :
    Diagnostic.rechainedAttempts old new attempts =
      attempts.map (AttemptReport.rechained old new) := by
  induction attempts with
  | nil => rfl
  | cons a rest ih => simp [rechainedAttempts, ih]

namespace Failure

variable {f : Failure} {old start : GoalChain} {depth : Nat}

theorem chain?_eq_none_iff : f.chain? = none ↔ outsideKinds.contains f.kind = true := by
  cases f <;> simp [chain?, kind, outsideKinds]

/-- The report of a failure of which the causes are reported by `report`, if at all. -/
def reportWith (report : Option (Failure → Diagnostic)) (f : Failure) : Diagnostic :=
  .mk f.kind f.goal.text f.message (f.chain?.elim [] fun chain => chain.map Term.text)
    f.candidates (f.attempts.map (Attempt.report report))

theorem reportTo_zero (f : Failure) : f.reportTo 0 = f.reportWith none :=
  rfl

theorem reportTo_succ (depth : Nat) (f : Failure) :
    f.reportTo (depth + 1) = f.reportWith (some fun cause => cause.reportTo depth) :=
  rfl

/-- The chain that a relocated failure shows. -/
theorem StartsWith.shown (h : f.StartsWith old) (new : GoalChain) (depth : Nat) :
    (f.relocateFrom old new depth).chain?.elim [] (fun chain => chain.map Term.text) =
      if outsideKinds.contains f.kind then f.chain?.elim [] (fun chain => chain.map Term.text)
      else new.map Term.text ++
        (f.chain?.elim [] fun chain => chain.map Term.text).drop (old.map Term.text).length := by
  rw [chain?_relocateFrom]
  cases hc : f.chain? with
  | none =>
    have hkind : outsideKinds.contains f.kind = true := chain?_eq_none_iff.mp hc
    simp only [hkind, if_true, Option.map_none]
  | some chain =>
    have hkind : outsideKinds.contains f.kind = false := by
      rw [← Bool.not_eq_true, ← chain?_eq_none_iff, hc]
      simp
    obtain ⟨rest, rfl⟩ := h chain hc
    simp only [hkind, Option.map_some, GoalChain.relocate_append, Option.elim_some]
    simp

theorem StartsWith.reportWith_relocateFrom (h : f.StartsWith old) {new : GoalChain}
    {report : Option (Failure → Diagnostic)}
    (hattempts : ∀ a ∈ f.attempts, (a.relocateCause old new depth).report report =
      (a.report report).rechained (old.map Term.text) (new.map Term.text)) :
    (f.relocateFrom old new depth).reportWith report =
      (f.reportWith report).rechained (old.map Term.text) (new.map Term.text) := by
  unfold reportWith
  rw [kind_relocateFrom, goal_relocateFrom, message_relocateFrom, candidates_relocateFrom,
    attempts_relocateFrom, h.shown, Diagnostic.rechained, Diagnostic.rechainedAttempts_eq,
    List.map_map, List.map_map]
  congr 1
  exact List.map_congr_left hattempts

/-- The report of a relocated failure is the report of the failure, with other chains. -/
theorem StartsTo.reportTo_relocateFrom (h : f.StartsTo depth old) (new : GoalChain) :
    (f.relocateFrom old new depth).reportTo depth =
      (f.reportTo depth).rechained (old.map Term.text) (new.map Term.text) := by
  induction depth generalizing f with
  | zero =>
    rw [reportTo_zero, reportTo_zero]
    refine h.head.reportWith_relocateFrom fun a _ => ?_
    rw [relocateCause_zero]
    cases a <;> rfl
  | succ depth ih =>
    rw [reportTo_succ, reportTo_succ]
    refine h.head.reportWith_relocateFrom fun a ha => ?_
    cases a with
    | subgoal rule requirement goal cause =>
      simp only [Attempt.relocateCause, Attempt.report, AttemptReport.rechained,
        ih (h.cause ha rfl)]
    | _ => rfl

/-- A failure of a search of which every chain further down starts with the failure's own. -/
structure Coherent (start : GoalChain) (f : Failure) : Prop where
  chain : f.chain? = some start
  nested : f.Throughout (StartsWith start)

/-- Down to some level, every chain starts with the failure's own. -/
structure CoherentTo (depth : Nat) (start : GoalChain) (f : Failure) : Prop where
  chain : f.chain? = some start
  nested : f.StartsTo depth start

theorem Coherent.to (h : f.Coherent start) (depth : Nat) : f.CoherentTo depth start :=
  ⟨h.chain, fun level _ inner ht => h.nested level inner ht⟩

theorem CoherentTo.relocateFrom (h : f.CoherentTo depth start) (new : GoalChain) :
    (f.relocateFrom start new depth).CoherentTo depth new := by
  refine ⟨?_, h.nested.relocateFrom new⟩
  rw [chain?_relocateFrom, h.chain, Option.map_some, GoalChain.relocate_own]

end Failure

/-- A coherent failure is the same wherever it is seen from, up to the place. Seen from a chain it has
that chain, and down to the level that reports show every chain further down starts with it. Its
report is the one of the failure with the leading goals of each chain replaced. Seen from one place
and then another it is as if seen from there at once, so that its own place gives it back. -/
theorem seenFrom_lawful {f : Failure} {start : GoalChain} (h : f.Coherent start)
    (chain other : GoalChain) :
    (f.seenFrom chain).chain? = some chain ∧
    (f.seenFrom chain).CoherentTo causeDepth chain ∧
    (f.seenFrom chain).report =
      f.report.rechained (start.map Term.text) (chain.map Term.text) ∧
    (f.seenFrom chain).seenFrom other = f.seenFrom other ∧
    f.seenFrom start = f ∧ (f.seenFrom chain).seenFrom start = f := by
  have hto := h.to causeDepth
  have hself : f.seenFrom start = f := by
    rw [Failure.seenFrom_eq_relocateFrom h.chain, Failure.relocateFrom_self]
  have hseen : f.seenFrom chain = f.relocateFrom start chain causeDepth :=
    Failure.seenFrom_eq_relocateFrom h.chain chain
  have hcoherent : (f.seenFrom chain).CoherentTo causeDepth chain := by
    rw [hseen]
    exact hto.relocateFrom chain
  have htwice : ∀ other, (f.seenFrom chain).seenFrom other = f.seenFrom other := by
    intro other
    rw [Failure.seenFrom_eq_relocateFrom hcoherent.chain, hseen,
      Failure.seenFrom_eq_relocateFrom h.chain, hto.nested.relocateFrom_twice]
  refine ⟨hcoherent.chain, hcoherent, ?_, htwice other, hself, (htwice start).trans hself⟩
  rw [hseen]
  exact hto.nested.reportTo_relocateFrom chain

/-- A failure below a goal, due to one further down. -/
def floatBelowCell : Failure :=
  .noRule (.const "Float") [.const "Cell"]
    [.subgoal "p::float" 0 (.const "Bits")
      (.noRule (.const "Bits") [.const "Cell", .const "Float"] [])]

theorem floatBelowCell_coherent : floatBelowCell.Coherent [.const "Cell"] := by
  refine ⟨rfl, Failure.throughout_iff.mpr ⟨?_, fun a ha cause hc => ?_⟩⟩
  · intro chain hchain
    cases hchain
    exact List.prefix_rfl
  · obtain rfl := List.mem_singleton.mp ha
    cases hc
    refine Failure.throughout_iff.mpr ⟨fun chain hchain => ?_, fun a ha => ?_⟩
    · cases hchain
      exact List.prefix_append [Term.const "Cell"] [Term.const "Float"]
    · cases ha

/-- Seen from a longer chain, from none and from its own. -/
theorem floatBelowCell_moves :
    floatBelowCell.Coherent [.const "Cell"] ∧
    (floatBelowCell.seenFrom [.const "Root", .const "Box"]).chain? =
      some [.const "Root", .const "Box"] ∧
    (floatBelowCell.seenFrom [.const "Root", .const "Box"]).CoherentTo causeDepth
      [.const "Root", .const "Box"] ∧
    (floatBelowCell.seenFrom [.const "Root", .const "Box"]).report =
      floatBelowCell.report.rechained ["Cell"] ["Root", "Box"] ∧
    (floatBelowCell.seenFrom [.const "Root", .const "Box"]).seenFrom [] =
      floatBelowCell.seenFrom [] ∧
    floatBelowCell.seenFrom [.const "Cell"] = floatBelowCell ∧
    (floatBelowCell.seenFrom [.const "Root", .const "Box"]).seenFrom [.const "Cell"] =
      floatBelowCell :=
  ⟨floatBelowCell_coherent, seenFrom_lawful floatBelowCell_coherent [.const "Root", .const "Box"] []⟩

end Clausal
