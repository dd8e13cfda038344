import Clausal.Proofs.Hindrances
import Clausal.Proofs.Tidiness

namespace Clausal

namespace Search

/-- The depth bound cuts the top frame short, and the recorded failure of a requirement of the rule
is dropped. The state of the goal that rules the rule out is not. -/
structure Drops (policy : Policy) (rulesOut : GoalState → Rule → Prop) (s : Search) (goal : Term)
    (r : Rule) : Prop where
  closing : s.Closing
  cut : (s.verdict policy).isDepthExceeded = true
  dropped : ∃ subst, unify goal r.head = .ok subst ∧ ∃ q ∈ r.body, ∃ x,
    subst.apply q.pattern = .ok x ∧ HasFailed s.ledger.get? x ∧ s.closed policy x = none
  kept : ∃ state, s.closed policy goal = some state ∧ rulesOut state r

end Search

/-- A rule that the state of a goal rules out has a requirement that failed or is the goal itself,
but for lapses, and for rules of which the failed requirement was dropped. Either of these has left
the goal with the outcome that it has. -/
def Grounds (catalog : Catalog) (policy : Policy) (rulesOut : GoalState → Rule → Prop)
    (lapse : Search → Term → Rule → Prop) (past : List Search) (states : States) : Prop :=
  ∀ goal state, states goal = some state → ∀ r ∈ catalog.rules, rulesOut state r →
    ∀ subst, unify goal r.head = .ok subst →
      r.Lacks subst (fun x => x = goal ∨ HasFailed states x) ∨
        ∃ s ∈ past, (lapse s goal r ∨ s.Drops policy rulesOut goal r) ∧ s.Lasts policy states goal

namespace Grounds

variable {catalog : Catalog} {policy : Policy} {rulesOut : GoalState → Rule → Prop}
  {lapse : Search → Term → Rule → Prop} {past : List Search} {states states' : States} {s : Search}

theorem nothing : Grounds catalog policy rulesOut lapse past fun _ => none := by
  intro goal state hs
  cases hs

theorem later (h : Grounds catalog policy rulesOut lapse past states) (s : Search) :
    Grounds catalog policy rulesOut lapse (past ++ [s]) states := by
  intro goal state hs r hr hout subst hu
  exact (h goal state hs r hr hout subst hu).imp_right fun hevent =>
    Search.exists_lasts_later s hevent rfl

theorem push (h : Grounds catalog policy rulesOut lapse past states)
    (hopen : ∀ n id r, ¬rulesOut (.inProgress n id) r) {goal : Term} {n : Nat} {id : ProofId}
    (hg : states goal = none)
    (hs : ∀ g, states' g = if g = goal then some (.inProgress n id) else states g) :
    Grounds catalog policy rulesOut lapse past states' := by
  have other : ∀ x, x ≠ goal → states' x = states x := fun x hx => by rw [hs, if_neg hx]
  intro g state hst r hr hout subst hu
  have hne : g ≠ goal := by
    rintro rfl
    rw [hs, if_pos rfl] at hst
    cases hst
    exact hopen _ _ _ hout
  rw [other g hne] at hst
  refine (h g state hst r hr hout subst hu).imp ?_ ?_
  · refine fun hl => hl.mono fun x hx => hx.imp_right ?_
    rintro ⟨f, hf⟩
    refine ⟨f, (other x ?_).trans hf⟩
    rintro rfl
    cases hg.symm.trans hf
  · rintro ⟨e, he, hcase, hlasts⟩
    exact ⟨e, he, hcase, hlasts.congr (by rw [other g hne])⟩

theorem exists_outcome (hopen : ∀ n id r, ¬rulesOut (.inProgress n id) r) {state : GoalState}
    {r : Rule} (h : rulesOut state r) : ∃ outcome, state.outcome? = some outcome := by
  cases state with
  | inProgress n id => exact absurd h (hopen n id r)
  | provisional k outcome chain => exact ⟨outcome, rfl⟩
  | resolved p => exact ⟨.ok p, rfl⟩
  | failed f => exact ⟨.error f, rfl⟩

/-- The end of a frame keeps the grounds of what was ruled out before. -/
theorem keep (h : Grounds catalog policy rulesOut lapse past s.ledger.get?)
    (hopen : ∀ n id r, ¬rulesOut (.inProgress n id) r)
    (ha : Aligned s.stack s.ledger.get?) (hc : ¬s.top.IsCut)
    (hnew : ∀ goal state, s.closed policy goal = some state → ∀ r ∈ catalog.rules,
      rulesOut state r → ∀ subst, unify goal r.head = .ok subst →
        (∃ before, s.ledger.get? goal = some before ∧ rulesOut before r ∧
          state.outcome? = before.outcome?) ∨
          r.Lacks subst (fun x => x = goal ∨ HasFailed (s.closed policy) x) ∨ lapse s goal r) :
    Grounds catalog policy rulesOut lapse (past ++ [s]) (s.closed policy) := by
  have ho : (s.verdict policy).isDepthExceeded = false := Search.not_verdict_isDepthExceeded hc
  intro goal state hst r hr hout subst hu
  rcases hnew goal state hst r hr hout subst hu with ⟨before, hb, hold, hsame⟩ | hl | hlapse
  · refine (h goal before hb r hr hold subst hu).imp ?_ ?_
    · exact fun hl => hl.mono fun x hx => hx.imp_right (Search.hasFailed_keep ha hc ho)
    · exact fun hevent => Search.exists_lasts_later s hevent (by rw [hst, hb]; exact hsame)
  · exact .inl hl
  · obtain ⟨outcome, houtcome⟩ := exists_outcome hopen hout
    exact .inr ⟨s, by simp, .inl hlapse, Search.lasts_closed hst houtcome⟩

theorem cut (h : Grounds catalog policy rulesOut lapse past s.ledger.get?)
    (hopen : ∀ n id r, ¬rulesOut (.inProgress n id) r) (hs : s.Closing) (hc : s.top.IsCut) :
    Grounds catalog policy rulesOut lapse (past ++ [s]) (s.closed policy) := by
  have closed : ∀ x, s.closed policy x = none ∨ s.closed policy x = s.ledger.get? x :=
    fun x => (Search.closed_of_cut_states hc x).imp And.right And.right
  intro goal state hst r hr hout subst hu
  have hbefore : s.ledger.get? goal = some state := by
    rcases closed goal with hn | he
    · cases hn.symm.trans hst
    · exact he.symm.trans hst
  rcases h goal state hbefore r hr hout subst hu with ⟨q, hq, hl⟩ | hevent
  -- The cut may drop the failure that was the ground and leave the state that rested on it.
  · by_cases hall : ∀ x, subst.apply q.pattern = .ok x → x = goal ∨ HasFailed (s.closed policy) x
    · exact .inl ⟨q, hq, hall⟩
    · push Not at hall
      obtain ⟨x, hx, hne, hlost⟩ := hall
      have hfailed := (hl x hx).resolve_left hne
      have hnone : s.closed policy x = none := by
        rcases closed x with hn | he
        · exact hn
        · exact absurd (by simpa only [HasFailed, he] using hfailed) hlost
      have hdrops : s.Drops policy rulesOut goal r :=
        ⟨hs, Search.verdict_isDepthExceeded.mpr hc, ⟨subst, hu, q, hq, x, hx, hfailed, hnone⟩,
          state, hst, hout⟩
      obtain ⟨outcome, houtcome⟩ := exists_outcome hopen hout
      exact .inr ⟨s, by simp, .inr hdrops, Search.lasts_closed hst houtcome⟩
  · exact .inr (Search.exists_lasts_later s hevent (by rw [hst, hbefore]))

/-- Searches keep the grounds for ruling rules out, if each frame has such when it ends. -/
theorem invariant (policy : Policy) (rulesOut : GoalState → Rule → Prop)
    (lapse : Search → Term → Rule → Prop) (hi : catalog.Indexed)
    (hopen : ∀ n id r, ¬rulesOut (.inProgress n id) r)
    (hnew : ∀ s : Search, Aligned s.stack s.ledger.get? → Accounted catalog s.stack s.ledger.get? →
      s.Closing → ¬s.top.IsCut → ∀ goal state, s.closed policy goal = some state →
      ∀ r ∈ catalog.rules, rulesOut state r → ∀ subst, unify goal r.head = .ok subst →
        (∃ before, s.ledger.get? goal = some before ∧ rulesOut before r ∧
          state.outcome? = before.outcome?) ∨
          r.Lacks subst (fun x => x = goal ∨ HasFailed (s.closed policy) x) ∨ lapse s goal r) :
    Invariant catalog policy fun past frames states table =>
      (ProofGraph catalog frames states table ∧ Accounted catalog frames states) ∧
        Grounds catalog policy rulesOut lapse past states :=
  (accounted_invariant policy hi).and (fun _ => .nothing) (fun _ s _ h => h.later s)
    (fun _ _ _ _ _ _ h hg hs => h.push hopen hg hs)
    (fun _ s ha h hs hc hg => hg.keep hopen ha hc (hnew s ha h.2 hs hc))
    (fun _ _ _ _ hs hc hg => hg.cut hopen hs hc)

end Grounds

end Clausal
