import Clausal.Proofs.Registration
import Clausal.Proofs.Verdicts

namespace Clausal

/-- The attempt is one at the rule: it has the rule's name, and tells whether the rule's head matches
the goal. -/
structure Attempt.IsAt (goal : Term) (r : Rule) (a : Attempt) : Prop where
  rule : a.rule = r.name
  unified : a.unified = goal.fits r.head

/-- As long as no rule has succeeded, the frame lists one attempt at each candidate that it is done
with, in order. -/
def Frame.Lists (catalog : Catalog) (f : Frame) : Prop :=
  f.successes = [] → ∃ tried,
    catalog.candidates f.goal = tried ++ (f.trial.map Trial.rule).toList ++ f.remaining ∧
      List.Forall₂ (Attempt.IsAt f.goal) tried f.attempted

section

variable {catalog : Catalog} {policy : Policy} {states : States} {depth : Nat} {goal : Term}
  {f f₀ top top' : Frame} {rules : List Rule} {attempted : List Attempt}

theorem names_of_isAt (h : List.Forall₂ (Attempt.IsAt goal) rules attempted) :
    attempted.map Attempt.rule = rules.map Rule.name := by
  induction h with
  | nil => rfl
  | cons ha _ ih => rw [List.map_cons, List.map_cons, ha.rule, ih]

/-- The attempts of which the head matched are those at the rules that match the goal. -/
theorem unified_of_isAt (h : List.Forall₂ (Attempt.IsAt goal) rules attempted) :
    List.Forall₂ (Attempt.IsAt goal) (rules.filter fun r => goal.fits r.head)
      (attempted.filter Attempt.unified) := by
  induction h with
  | nil => exact .nil
  | @cons r a rest as ha _ ih =>
    cases hfits : goal.fits r.head with
    | true =>
      have hunified : a.unified = true := ha.unified.trans hfits
      rw [List.filter_cons_of_pos (by simpa using hfits), List.filter_cons_of_pos hunified]
      exact .cons ha ih
    | false =>
      have hunified : a.unified = false := ha.unified.trans hfits
      rw [List.filter_cons_of_neg (by simp [hfits]), List.filter_cons_of_neg (by simp [hunified])]
      exact ih

theorem Frame.Lists.start {id : ProofId} : (Frame.start catalog depth goal id).Lists catalog :=
  fun _ => ⟨[], rfl, .nil⟩

theorem Frame.Lists.trails (h : f₀.Lists catalog) (ht : f.Trails f₀) : f.Lists catalog := by
  intro hnone
  rw [ht.successes] at hnone
  obtain ⟨tried, hcandidates, hall⟩ := h hnone
  have hrule : f.trial.map Trial.rule = f₀.trial.map Trial.rule := by
    cases h₀ : f₀.trial with
    | none => rw [ht.idle h₀]
    | some t₀ =>
      obtain ⟨t, hft, hr, _⟩ := ht.trial t₀ h₀
      rw [hft, Option.map_some, Option.map_some, hr]
  refine ⟨tried, ?_, ?_⟩
  · rw [ht.goal, hrule, ht.remaining]
    exact hcandidates
  · rw [ht.goal, ht.attempted]
    exact hall

/-- A rule that is given up is listed with the attempt at it. -/
theorem Frame.Lists.giveUp {t t' : Trial} {a : Attempt} (h : f.Lists catalog)
    (ht : f.trial = some t) (ha : a.IsAt f.goal t.rule) : (f.giveUp t' a).Lists catalog := by
  intro hnone
  obtain ⟨tried, hcandidates, hall⟩ := h hnone
  refine ⟨tried ++ [t.rule], ?_, List.rel_append hall (.cons ha .nil)⟩
  rw [ht] at hcandidates
  simpa [Frame.giveUp] using hcandidates

theorem Frame.Lists.tryRule {rule : Rule} {rest : List Rule} (h : f.Lists catalog)
    (ht : f.trial = none) (hr : f.remaining = rule :: rest) :
    (f.tryRule depth rule rest).Lists catalog := by
  unfold Frame.tryRule
  split
  next subst hu =>
    intro hnone
    obtain ⟨tried, hcandidates, hall⟩ := h hnone
    refine ⟨tried, ?_, hall⟩
    rw [ht, hr] at hcandidates
    simpa using hcandidates
  next reason hu =>
    intro hnone
    obtain ⟨tried, hcandidates, hall⟩ := h hnone
    have hfits : f.goal.fits rule.head = false := by simp [Term.fits, hu]
    refine ⟨tried ++ [rule], ?_, List.rel_append hall (.cons ⟨rfl, hfits.symm⟩ .nil)⟩
    rw [ht, hr] at hcandidates
    simpa [ht] using hcandidates

theorem Frame.Lists.progress (h : top.Lists catalog) (hs : top.Sound catalog)
    (hp : top.Progress states depth top') : top'.Lists catalog := by
  have fits : ∀ t, top.trial = some t → top.goal.fits t.rule.head = true := fun t ht =>
    Term.fits_iff.mpr ⟨t.subst, (hs.trial t ht).2.1⟩
  cases hp with
  | tried ht hr => exact h.tryRule ht hr
  | succeeded ht hn =>
    intro hnone
    simp [succeed] at hnone
  | unbound ht hr hv => exact h.giveUp ht ⟨rfl, (fits _ ht).symm⟩
  | @received t r goal answer low ht hr ha hans =>
    have hfits := fits t ht
    simp only [receive, ht]
    cases answer with
    | ok link =>
      intro hnone
      obtain ⟨tried, hcandidates, hall⟩ := h hnone
      refine ⟨tried, ?_, hall⟩
      rw [ht] at hcandidates
      exact hcandidates
    | error blocked =>
      cases blocked with
      | cycle => exact h.giveUp ht ⟨rfl, hfits.symm⟩
      | failed cause => exact h.giveUp ht ⟨rfl, hfits.symm⟩

/-- A frame that has tried all its rules without success lists an attempt at each candidate. -/
theorem Frame.Lists.ended (h : f.Lists catalog) (ht : f.trial = none) (hr : f.remaining = [])
    (hs : f.successes = []) :
    List.Forall₂ (Attempt.IsAt f.goal) (catalog.candidates f.goal) f.attempted := by
  obtain ⟨tried, hcandidates, hall⟩ := h hs
  rw [ht, hr] at hcandidates
  have htried : catalog.candidates f.goal = tried := by simpa using hcandidates
  rw [htried]
  exact hall

end

end Clausal
