import Clausal.Proofs.Unchained

namespace Clausal

namespace Failure

/-- A failure tells of itself, and one level further down of what the causes of its attempts tell
of. -/
inductive Tells : Failure → Nat → Failure → Prop
  | self (f : Failure) : Tells f 0 f
  | cause {f a cause level inner} : a ∈ f.attempts → a.cause? = some cause →
      Tells cause level inner → Tells f (level + 1) inner

theorem goal_unchained (f : Failure) : f.unchained.goal = f.goal := by
  cases f <;> rfl

theorem attempts_unchained (f : Failure) :
    f.unchained.attempts = f.attempts.map Attempt.unchained := by
  cases f with
  | noRule goal chain attempted => exact unchainedAttempts_eq attempted
  | _ => rfl

end Failure

theorem Attempt.rule_unchained (a : Attempt) : a.unchained.rule = a.rule := by
  cases a <;> rfl

theorem Attempt.cause?_unchained (a : Attempt) :
    a.unchained.cause? = a.cause?.map Failure.unchained := by
  cases a <;> rfl

namespace Failure

variable {f g inner cause : Failure} {level : Nat}

@[simp]
theorem tells_zero : f.Tells 0 inner ↔ inner = f := by
  constructor
  · intro h
    cases h
    rfl
  · rintro rfl
    exact .self _

theorem tells_succ : f.Tells (level + 1) inner ↔
    ∃ a ∈ f.attempts, ∃ cause, a.cause? = some cause ∧ cause.Tells level inner := by
  constructor
  · intro h
    cases h with
    | cause ha hc ht => exact ⟨_, ha, _, hc, ht⟩
  · rintro ⟨a, ha, cause, hc, ht⟩
    exact .cause ha hc ht

/-- All that a failure tells of, itself included, is so. -/
def Throughout (P : Failure → Prop) (f : Failure) : Prop :=
  ∀ level inner, f.Tells level inner → P inner

theorem throughout_iff {P : Failure → Prop} : f.Throughout P ↔
    P f ∧ ∀ a ∈ f.attempts, ∀ cause, a.cause? = some cause → cause.Throughout P := by
  constructor
  · intro h
    exact ⟨h 0 f (.self f), fun a ha cause hc level inner ht => h _ inner (.cause ha hc ht)⟩
  · rintro ⟨hself, hcauses⟩ level inner ht
    cases ht with
    | self => exact hself
    | cause ha hc ht => exact hcauses _ ha _ hc _ _ ht

theorem Throughout.mono {P Q : Failure → Prop} (h : f.Throughout P) (hpq : ∀ g, P g → Q g) :
    f.Throughout Q :=
  fun level inner ht => hpq inner (h level inner ht)

/-- Two failures that differ by their chains only have causes that do so too. -/
theorem exists_cause_of_unchained {a : Attempt} (he : f.unchained = g.unchained)
    (ha : a ∈ f.attempts) (hc : a.cause? = some cause) :
    ∃ b ∈ g.attempts, ∃ cause', b.cause? = some cause' ∧ cause.unchained = cause'.unchained := by
  have hmem : a.unchained ∈ g.attempts.map Attempt.unchained := by
    rw [← attempts_unchained, ← he, attempts_unchained]
    exact List.mem_map_of_mem ha
  obtain ⟨b, hb, hab⟩ := List.mem_map.mp hmem
  have hcause : b.cause?.map unchained = some cause.unchained := by
    rw [← Attempt.cause?_unchained, hab, Attempt.cause?_unchained, hc]
    rfl
  obtain ⟨cause', hc', he'⟩ := Option.map_eq_some_iff.mp hcause
  exact ⟨b, hb, cause', hc', he'.symm⟩

/-- What a failure tells of, one that differs by its chains only tells of as well, up to chains. -/
theorem Tells.of_unchained (h : f.Tells level inner) (he : f.unchained = g.unchained) :
    ∃ inner', g.Tells level inner' ∧ inner.unchained = inner'.unchained := by
  induction h generalizing g with
  | self f => exact ⟨g, .self g, he⟩
  | cause ha hc _ ih =>
    obtain ⟨b, hb, cause', hc', he'⟩ := exists_cause_of_unchained he ha hc
    obtain ⟨inner', ht, hinner⟩ := ih he'
    exact ⟨inner', .cause hb hc' ht, hinner⟩

theorem Throughout.of_unchained {P : Failure → Prop} (h : f.Throughout P)
    (hP : ∀ f g : Failure, f.unchained = g.unchained → P f → P g)
    (he : f.unchained = g.unchained) : g.Throughout P := by
  intro level inner ht
  obtain ⟨inner', ht', hinner⟩ := ht.of_unchained he.symm
  exact hP inner' inner hinner.symm (h level inner' ht')

end Failure

end Clausal
