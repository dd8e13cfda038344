import Clausal.Catalog
import Mathlib.Tactic.ByContra

namespace Clausal

/-- A goal that matches a pattern has the pattern's constructor. -/
theorem unify_ctor {goal : Term} {ctor : String} {args : List Term} {s : Substitution}
    (h : unify goal (.app ctor args) = .ok s) : goal.ctor? = some ctor := by
  unfold unify at h
  split at h
  next hg =>
    cases goal with
    | var v => simp [Term.isGround] at hg
    | app c ts =>
      simp only [Substitution.extend] at h
      split at h
      · simp at h
      next hc => simpa [Term.ctor?] using hc
  · simp at h

namespace HeadIndex

theorem find_add (ctor other : String) (id : RuleId) (index : HeadIndex) :
    (index.add ctor id).find other =
      if other = ctor then index.find ctor ++ [id] else index.find other := by
  induction index with
  | nil =>
    by_cases h : other = ctor
    · simp [add, find, h]
    · have hb : (other == ctor) = false := by simpa using h
      simp [add, find, h, List.lookup_cons, hb]
  | cons e index ih =>
    obtain ⟨c, ids⟩ := e
    simp only [add]
    by_cases hc : c = ctor
    · subst hc
      by_cases h : other = c
      · simp [find, h]
      · have hb : (other == c) = false := by simpa using h
        simp [find, List.lookup_cons, hb, h]
    · simp only [if_neg hc]
      by_cases h : other = c
      · subst h
        simp [find, hc]
      · have hb : (other == c) = false := by simpa using h
        have hb' : (ctor == c) = false := by simpa using Ne.symm hc
        simp only [find, List.lookup_cons, hb, hb'] at ih ⊢
        exact ih

end HeadIndex

namespace Clause

variable {c : Clause} {arities next : Arities} {ctor : String} {reason : Malformation}

theorem check_ok (h : c.check arities = .ok (ctor, next)) : c.name ≠ "" ∧
    (∃ args, c.head = .app ctor args) ∧ c.unboundVar? = none ∧
      arities.noteAll c.applications = .ok next := by
  unfold check at h
  split at h
  · cases h
  next hname =>
    split at h
    · cases h
    next d args hhead =>
      split at h
      · cases h
      next hbound =>
        split at h
        next hnote =>
          cases h
          exact ⟨hname, ⟨args, hhead⟩, hbound, hnote⟩
        · cases h

theorem check_error (h : c.check arities = .error reason) :
    reason = .emptyName ∧ c.name = "" ∨ (∃ v, reason = .variableHead v ∧ c.head = .var v) ∨
      (∃ v, reason = .unboundBodyVariable v ∧ c.unboundVar? = some v) ∨
        arities.noteAll c.applications = .error reason := by
  unfold check at h
  split at h
  next hname =>
    cases h
    exact .inl ⟨rfl, hname⟩
  · split at h
    next v hhead =>
      cases h
      exact .inr (.inl ⟨v, rfl, hhead⟩)
    · split at h
      next v hv =>
        cases h
        exact .inr (.inr (.inl ⟨v, rfl, hv⟩))
      · split at h
        · cases h
        next hnote =>
          cases h
          exact .inr (.inr (.inr hnote))

end Clause

namespace Catalog

variable {catalog next : Catalog} {provider : String} {c : Clause} {e : CatalogError}

/-- A registered clause has passed its check and has a new name, and comes last. -/
theorem register_ok (h : catalog.register provider c = .ok next) :
    ∃ ctor, c.check catalog.arities = .ok (ctor, next.arities) ∧
      next.rules = catalog.rules ++ [c.toRule catalog.rules.length provider] ∧
      next.index = catalog.index.add ctor catalog.rules.length ∧
      ∀ r ∈ catalog.rules, r.name ≠ qualifiedName provider c.name := by
  unfold register at h
  dsimp only at h
  split at h
  · cases h
  next ctor arities hc =>
    split at h
    · cases h
    next hnew =>
      cases h
      exact ⟨ctor, hc, rfl, rfl, by simpa using hnew⟩

theorem register_error (h : catalog.register provider c = .error e) :
    e.rule = qualifiedName provider c.name ∧ (c.check catalog.arities = .error e.reason ∨
      e.reason = .duplicate ∧ ∃ r ∈ catalog.rules, r.name = qualifiedName provider c.name) := by
  unfold register at h
  dsimp only at h
  split at h
  next hc =>
    cases h
    exact ⟨rfl, .inl hc⟩
  · split at h
    next hold =>
      cases h
      exact ⟨rfl, .inr ⟨rfl, by simpa using hold⟩⟩
    · cases h

/-- A catalog numbers its rules in order, has an application at every head, and lists under each
constructor the rules with that constructor at the head. -/
structure Indexed (catalog : Catalog) : Prop where
  ids : ∀ (i : Nat) (r : Rule), catalog.rules[i]? = some r → r.id = i
  heads : ∀ r ∈ catalog.rules, ∃ ctor args, r.head = .app ctor args
  index : ∀ ctor, catalog.idsOf ctor =
    (catalog.rules.filter fun r => r.head.ctor? = some ctor).map Rule.id

theorem Indexed.empty : Indexed Catalog.empty :=
  ⟨by simp [Catalog.empty], by simp [Catalog.empty], by simp [Catalog.empty, idsOf, HeadIndex.find]⟩

theorem Indexed.register (h : catalog.Indexed) (hr : catalog.register provider c = .ok next) :
    next.Indexed := by
  obtain ⟨ctor, hc, hrules, hindex, _⟩ := register_ok hr
  obtain ⟨_, ⟨args, hargs⟩, _, _⟩ := Clause.check_ok hc
  refine ⟨?_, ?_, ?_⟩
  · intro i r hi
    rw [hrules, List.getElem?_append] at hi
    split at hi
    · exact h.ids i r hi
    next hlen =>
      have hz : i - catalog.rules.length = 0 := by
        by_contra hne
        simp [hne] at hi
      have hi' : i = catalog.rules.length := by omega
      have hr : c.toRule catalog.rules.length provider = r := by simpa [hz] using hi
      rw [← hr, hi']
      rfl
  · intro r hr
    rw [hrules] at hr
    rcases List.mem_append.mp hr with hr | hr
    · exact h.heads r hr
    · have he : r = c.toRule catalog.rules.length provider := by simpa using hr
      exact ⟨ctor, args, by rw [he]; exact hargs⟩
  · intro other
    have hi := h.index
    simp only [idsOf] at hi ⊢
    rw [hindex, hrules, HeadIndex.find_add, List.filter_append, List.map_append]
    by_cases ho : other = ctor
    · subst ho
      rw [if_pos rfl, hi other]
      simp [Clause.toRule, hargs, Term.ctor?]
    · rw [if_neg ho, hi other]
      simp [Clause.toRule, hargs, Term.ctor?, Ne.symm ho]

theorem Indexed.registerAll {clauses : List (String × Clause)}
    (h : catalog.Indexed) (hr : catalog.registerAll clauses = .ok next) : next.Indexed := by
  induction clauses generalizing catalog with
  | nil => cases hr; exact h
  | cons entry rest ih =>
    obtain ⟨provider, c⟩ := entry
    simp only [Catalog.registerAll] at hr
    split at hr
    next mid hm => exact ih (h.register hm) hr
    · simp at hr

theorem build_indexed {clauses : List (String × Clause)} {catalog : Catalog}
    (h : build clauses = .ok catalog) : catalog.Indexed :=
  Indexed.empty.registerAll h

theorem Indexed.rule?_id {catalog : Catalog} (h : catalog.Indexed) {r : Rule}
    (hr : r ∈ catalog.rules) : catalog.rule? r.id = some r := by
  obtain ⟨i, hi⟩ := List.mem_iff_getElem?.mp hr
  rw [h.ids i r hi]
  exact hi

theorem Indexed.map_id (h : catalog.Indexed) :
    catalog.rules.map Rule.id = List.range catalog.rules.length := by
  refine List.ext_getElem? fun i => ?_
  rw [List.getElem?_map]
  cases hi : catalog.rules[i]? with
  | some r =>
    have hlt : i < catalog.rules.length := (List.getElem?_eq_some_iff.mp hi).1
    rw [Option.map_some, h.ids i r hi, List.getElem?_range hlt]
  | none =>
    have hge : catalog.rules.length ≤ i := List.getElem?_eq_none_iff.mp hi
    rw [Option.map_none, List.getElem?_eq_none (by simpa using hge)]

theorem Indexed.idsOf_ascending (h : catalog.Indexed) (ctor : String) :
    (catalog.idsOf ctor).Pairwise (· < ·) := by
  have hsub : (catalog.idsOf ctor).Sublist (List.range catalog.rules.length) := by
    rw [h.index, ← h.map_id]
    exact List.filter_sublist.map Rule.id
  exact List.pairwise_lt_range.sublist hsub

theorem Indexed.mem_idsOf (h : catalog.Indexed) {ctor : String} {id : RuleId} :
    id ∈ catalog.idsOf ctor ↔ ∃ r ∈ catalog.rules, r.id = id ∧ r.head.ctor? = some ctor := by
  rw [h.index, List.mem_map]
  simp only [List.mem_filter, decide_eq_true_eq]
  constructor
  · rintro ⟨r, ⟨hr, hc⟩, hid⟩
    exact ⟨r, hr, hid, hc⟩
  · rintro ⟨r, hr, hid, hc⟩
    exact ⟨r, ⟨hr, hc⟩, hid⟩

/-- The candidates of a goal are the rules with its constructor at the head, in order. -/
theorem Indexed.candidates_eq {catalog : Catalog} (h : catalog.Indexed) {goal : Term}
    {ctor : String} (hg : goal.ctor? = some ctor) :
    catalog.candidates goal = catalog.rules.filter fun r => r.head.ctor? = some ctor := by
  have hm : ∀ rs : List Rule, (∀ r ∈ rs, r ∈ catalog.rules) →
      (rs.map Rule.id).filterMap catalog.rule? = rs := by
    intro rs hrs
    induction rs with
    | nil => rfl
    | cons r rs ih =>
      rw [List.map_cons, List.filterMap_cons, h.rule?_id (hrs r List.mem_cons_self)]
      simp only
      rw [ih fun x hx => hrs x (List.mem_cons_of_mem r hx)]
  simp only [candidates, hg]
  rw [h.index ctor]
  exact hm _ fun r hr => (List.mem_filter.mp hr).1

theorem Indexed.candidates_eq_filter {catalog : Catalog} (h : catalog.Indexed) (goal : Term) :
    catalog.candidates goal = catalog.rules.filter fun r => r.head.ctor? = goal.ctor? := by
  cases hg : goal.ctor? with
  | some ctor => exact h.candidates_eq hg
  | none =>
    have hnone : catalog.candidates goal = [] := by simp [candidates, hg]
    rw [hnone, eq_comm, List.filter_eq_nil_iff]
    intro r hr
    obtain ⟨ctor, args, hh⟩ := h.heads r hr
    simp [hh, Term.ctor?]

theorem Indexed.mem_rules_of_candidate {catalog : Catalog} (h : catalog.Indexed) {goal : Term}
    {r : Rule} (hr : r ∈ catalog.candidates goal) : r ∈ catalog.rules := by
  cases hg : goal.ctor? with
  | none => simp [candidates, hg] at hr
  | some ctor =>
    rw [h.candidates_eq hg] at hr
    exact (List.mem_filter.mp hr).1

/-- Every rule whose head matches a goal is one of the goal's candidates. -/
theorem Indexed.mem_candidates {catalog : Catalog} (h : catalog.Indexed) {goal : Term} {r : Rule}
    {s : Substitution} (hr : r ∈ catalog.rules) (hu : unify goal r.head = .ok s) :
    r ∈ catalog.candidates goal := by
  obtain ⟨ctor, args, hh⟩ := h.heads r hr
  rw [hh] at hu
  rw [h.candidates_eq (unify_ctor hu)]
  exact List.mem_filter.mpr ⟨hr, by simp [hh, Term.ctor?]⟩

end Catalog

end Clausal
