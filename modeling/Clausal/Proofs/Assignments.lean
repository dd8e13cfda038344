import Clausal.Matching
import Clausal.Proofs.Occurrences
import Clausal.Proofs.VariableOrder

namespace Clausal

namespace Term

mutual
/-- The term with every variable replaced by what an assignment gives it. -/
def under (σ : Variable → Term) : Term → Term
  | .var v => σ v
  | .app c ts => .app c (listUnder σ ts)

def listUnder (σ : Variable → Term) : List Term → List Term
  | [] => []
  | t :: ts => t.under σ :: listUnder σ ts
end

variable {σ τ : Variable → Term} {t u : Term}

theorem listUnder_eq_map (σ : Variable → Term) (ts : List Term) :
    listUnder σ ts = ts.map (under σ) := by
  induction ts with
  | nil => rfl
  | cons t ts ih => rw [listUnder, ih, List.map_cons]

theorem under_var (t : Term) : t.under .var = t := by
  induction t with
  | var v => rfl
  | app c ts ih =>
    rw [under, listUnder_eq_map, List.map_congr_left ih, List.map_id']

/-- Two assignments make the same of a term exactly when they agree on its variables. -/
theorem under_eq_under_iff : t.under σ = t.under τ ↔ ∀ v ∈ t.occurrences, σ v = τ v := by
  induction t with
  | var v => simp [under, occurrences]
  | app c ts ih =>
    have hlist : ts.map (under σ) = ts.map (under τ) ↔ ∀ t ∈ ts, t.under σ = t.under τ :=
      List.map_inj_left
    simp only [under, listUnder_eq_map, app.injEq, true_and, hlist, occurrences,
      mem_listOccurrences]
    constructor
    · rintro h v ⟨t, ht, hv⟩
      exact (ih t ht).mp (h t ht) v hv
    · intro h t ht
      exact (ih t ht).mpr fun v hv => h v ⟨t, ht, hv⟩

theorem Contains.under (h : t.Contains u) (σ : Variable → Term) :
    (t.under σ).Contains (u.under σ) := by
  induction t with
  | var v =>
    obtain rfl := contains_var.mp h
    exact contains_self _
  | app c ts ih =>
    rcases contains_app.mp h with rfl | ⟨t, ht, hu⟩
    · exact contains_self _
    · rw [Term.under, listUnder_eq_map]
      exact contains_app.mpr (.inr ⟨_, List.mem_map_of_mem ht, ih t ht hu⟩)

/-- A term becomes ground exactly when each of its variables does. -/
theorem isGround_under : (t.under σ).isGround = true ↔ ∀ v ∈ t.occurrences, (σ v).isGround = true := by
  induction t with
  | var v => simp [under, occurrences]
  | app c ts ih =>
    rw [under, listUnder_eq_map, isGround, allGround_iff, List.forall_mem_map, occurrences]
    simp only [mem_listOccurrences]
    constructor
    · rintro h v ⟨t, ht, hv⟩
      exact (ih t ht).mp (h t ht) v hv
    · intro h t ht
      exact (ih t ht).mpr fun v hv => h v ⟨t, ht, hv⟩

end Term

namespace Substitution

variable {s s₁ s₂ s' : Substitution} {v w : Variable} {t u p : Term} {ts ps us : List Term}
  {σ : Variable → Term}

/-- The variables that a substitution binds, in their order. -/
def domain (s : Substitution) : List Variable :=
  s.bindings.map Prod.fst

/-- What a substitution makes of a variable, if need be the variable itself. -/
def value (s : Substitution) (v : Variable) : Term :=
  (s.get? v).getD (.var v)

theorem get?_isSome_iff : (s.get? v).isSome = true ↔ v ∈ s.domain := by
  rw [get?, domain, List.lookup_isSome_iff, List.mem_map]
  constructor
  · rintro ⟨b, hb, he⟩
    exact ⟨b, hb, (beq_iff_eq.mp he).symm⟩
  · rintro ⟨b, hb, he⟩
    exact ⟨b, hb, beq_iff_eq.mpr he.symm⟩

theorem get?_eq_none_iff : s.get? v = none ↔ v ∉ s.domain := by
  rw [← get?_isSome_iff, Bool.not_eq_true, Option.isSome_eq_false_iff, Option.isNone_iff_eq_none]

theorem isTotalOver_iff {vs : List Variable} :
    s.isTotalOver vs = true ↔ ∀ v ∈ vs, v ∈ s.domain := by
  simp only [isTotalOver, List.all_eq_true, get?_isSome_iff]

theorem get?_eq_some (h : v ∈ s.domain) : s.get? v = some (s.value v) := by
  obtain ⟨t, ht⟩ := Option.isSome_iff_exists.mp (get?_isSome_iff.mpr h)
  rw [value, ht, Option.getD_some]

theorem value_of_get? (h : s.get? v = some t) : s.value v = t := by
  rw [value, h, Option.getD_some]

theorem mem_domain_of_get? (h : s.get? v = some t) : v ∈ s.domain :=
  get?_isSome_iff.mp (by rw [h]; rfl)

/-- Substitutions that bind the same variables to the same terms are equal. -/
theorem ext_of_domain (hd : s.domain = s'.domain) (hn : s.domain.Nodup)
    (h : ∀ v ∈ s.domain, s.get? v = s'.get? v) : s = s' := by
  obtain ⟨bs⟩ := s
  obtain ⟨cs⟩ := s'
  have heq : bs = cs := by
    simp only [domain, get?] at hd hn h
    induction bs generalizing cs with
    | nil => simpa using hd
    | cons b bs ih =>
      obtain ⟨v, t⟩ := b
      cases cs with
      | nil => cases hd
      | cons c cs =>
        obtain ⟨w, u⟩ := c
        simp only [List.map_cons, List.cons.injEq] at hd
        obtain ⟨rfl, hd⟩ := hd
        obtain ⟨hv, hn⟩ := List.nodup_cons.mp hn
        have htu : t = u := by simpa using h v (by simp)
        rw [htu, ih hn cs hd]
        intro w hw
        have hne : (w == v) = false := beq_eq_false_iff_ne.mpr fun he => hv (he ▸ hw)
        have hlook := h w (List.mem_cons_of_mem _ hw)
        simpa only [List.lookup_cons, hne] using hlook
  rw [heq]

theorem get?_insert (h : v ∉ s.domain) :
    (s.insert v t).get? w = if w = v then some t else s.get? w := by
  obtain ⟨bs⟩ := s
  simp only [domain, insert, get?] at h ⊢
  have hb : w ≠ v → (w == v) = false := beq_eq_false_iff_ne.mpr
  induction bs with
  | nil => by_cases hw : w = v <;> simp [place, hw, List.lookup_cons, hb]
  | cons b bs ih =>
    obtain ⟨x, u⟩ := b
    have hx : v ≠ x := fun he => h (by simp [he])
    have ih := ih fun hm => h (List.mem_cons_of_mem _ hm)
    unfold place
    split
    · by_cases hw : w = v <;> simp [List.lookup_cons, hw, hb]
    · rw [List.lookup_cons, List.lookup_cons, ih]
      by_cases hw : w = v
      · have hne : (v == x) = false := beq_eq_false_iff_ne.mpr hx
        simp [hw, hne]
      · simp [hw]

theorem domain_insert (h : v ∉ s.domain) : (s.insert v t).domain = v.insert s.domain := by
  obtain ⟨bs⟩ := s
  simp only [domain, insert] at h ⊢
  induction bs with
  | nil => rfl
  | cons b bs ih =>
    have hne : v.compare b.1 ≠ .eq := fun he => h (by simp [Variable.compare_eq_iff.mp he])
    have ih := ih fun hm => h (List.mem_cons_of_mem _ hm)
    cases hc : v.compare b.1 with
    | lt => simp [place, Variable.insert, hc]
    | eq => exact absurd hc hne
    | gt => simp [place, Variable.insert, hc, ih]

theorem apply_of_isGround (s : Substitution) (h : t.isGround = true) : s.apply t = .ok t := by
  cases t with
  | var v => cases h
  | app c ts => exact if_pos h

theorem applyList_of_allGround (s : Substitution) {ts : List Term} (h : Term.allGround ts = true) :
    s.applyList ts = .ok ts := by
  induction ts with
  | nil => rfl
  | cons t ts ih =>
    obtain ⟨ht, hts⟩ := Bool.and_eq_true_iff.mp h
    rw [applyList, apply_of_isGround s ht, ih hts]

/-- An application that is kept as it is would be the same if it were walked through. -/
theorem apply_app (s : Substitution) (c : String) (ts : List Term) :
    s.apply (.app c ts) = (s.applyList ts).map (Term.app c) := by
  rw [apply]
  split
  next h =>
    rw [applyList_of_allGround s h]
    rfl
  · cases s.applyList ts <;> rfl

mutual

theorem apply_of_domain : (p : Term) → (∀ v ∈ p.occurrences, v ∈ s.domain) →
    s.apply p = .ok (p.under s.value)
  | .var v, h => by
    have hv : v ∈ s.domain := h v (List.mem_singleton_self v)
    rw [apply, get?_eq_some hv, Term.under]
  | .app c ps, h => by
    rw [apply_app, applyList_of_domain ps h, Term.under]
    rfl

theorem applyList_of_domain : (ps : List Term) → (∀ v ∈ Term.listOccurrences ps, v ∈ s.domain) →
    s.applyList ps = .ok (Term.listUnder s.value ps)
  | [], _ => rfl
  | p :: ps, h => by
    rw [applyList, apply_of_domain p fun v hv => h v (List.mem_append_left _ hv),
      applyList_of_domain ps fun v hv => h v (List.mem_append_right _ hv), Term.listUnder]

end

mutual

theorem domain_of_apply : (p : Term) → {t : Term} → s.apply p = .ok t →
    ∀ v ∈ p.occurrences, v ∈ s.domain
  | .var v, t, h => by
    intro w hw
    obtain rfl := List.mem_singleton.mp hw
    rw [apply] at h
    split at h
    next hv => exact mem_domain_of_get? hv
    · cases h
  | .app c ps, t, h => by
    rw [apply_app] at h
    cases hps : s.applyList ps with
    | ok us => exact domain_of_applyList ps hps
    | error v =>
      rw [hps] at h
      cases h

theorem domain_of_applyList : (ps : List Term) → {us : List Term} → s.applyList ps = .ok us →
    ∀ v ∈ Term.listOccurrences ps, v ∈ s.domain
  | [], _, _ => fun _ hv => nomatch hv
  | p :: ps, us, h => by
    rw [applyList] at h
    split at h
    · cases h
    next hp =>
      split at h
      next hps =>
        intro v hv
        exact (List.mem_append.mp hv).elim (domain_of_apply p hp v) (domain_of_applyList ps hps v)
      · cases h

end

/-- A substitution can be applied exactly to the terms of which it binds all variables. -/
theorem apply_eq_ok_iff :
    s.apply p = .ok t ↔ (∀ v ∈ p.occurrences, v ∈ s.domain) ∧ p.under s.value = t := by
  constructor
  · intro h
    have hd := domain_of_apply p h
    rw [apply_of_domain p hd] at h
    exact ⟨hd, Except.ok.inj h⟩
  · rintro ⟨hd, rfl⟩
    exact apply_of_domain p hd

/-- The substitution has grown by bindings for some variables, and keeps those that it had. -/
structure Grows (s : Substitution) (vs : List Variable) (s' : Substitution) : Prop where
  domain : s'.domain = Variable.insertAll s.domain vs
  keeps : ∀ v ∈ s.domain, s'.value v = s.value v

theorem Grows.trans {vs ws : List Variable} (h : s.Grows vs s₁) (h' : s₁.Grows ws s') :
    s.Grows (vs ++ ws) s' where
  domain := by rw [Variable.insertAll_append, ← h.domain, h'.domain]
  keeps v hv := by
    have hv₁ : v ∈ s₁.domain := by
      rw [h.domain]
      exact Variable.mem_insertAll.mpr (.inl hv)
    rw [h'.keeps v hv₁, h.keeps v hv]

theorem Grows.mem_domain {vs : List Variable} (h : s.Grows vs s') (hv : v ∈ vs) :
    v ∈ s'.domain := by
  rw [h.domain]
  exact Variable.mem_insertAll.mpr (.inr hv)

theorem Grows.ascending {vs : List Variable} (h : s.Grows vs s') (ha : Variable.Ascending s.domain) :
    Variable.Ascending s'.domain := by
  rw [h.domain]
  exact ha.insertAll vs

theorem grows_insert (h : v ∉ s.domain) (t : Term) : s.Grows [v] (s.insert v t) where
  domain := domain_insert h
  keeps w hw := by
    have hne : w ≠ v := fun he => h (he ▸ hw)
    rw [value, value, get?_insert h, if_neg hne]

mutual

/-- A match binds the variables of the pattern, and makes the subject of it. -/
theorem extend_sound : (p : Term) → ∀ {s s' : Substitution} {t : Term},
    Variable.Ascending s.domain → s.extend t p = .ok s' →
      s.Grows p.occurrences s' ∧ p.under s'.value = t
  | .var v, s, s', t, ha, h => by
    unfold extend at h
    cases hv : s.get? v with
    | none =>
      rw [hv] at h
      cases h
      have hn : v ∉ s.domain := fun hm => by simp [get?_eq_some hm] at hv
      refine ⟨grows_insert hn t, ?_⟩
      rw [Term.under, value, get?_insert hn, if_pos rfl, Option.getD_some]
    | some u =>
      rw [hv] at h
      dsimp only at h
      split at h
      next hu =>
        cases h
        have hm := mem_domain_of_get? hv
        refine ⟨⟨(ha.insert_of_mem hm).symm, fun _ _ => rfl⟩, ?_⟩
        rw [Term.under, value_of_get? hv, hu]
      · cases h
  | .app d ps, s, s', t, ha, h => by
    cases t with
    | var w => simp [extend] at h
    | app c ts =>
      unfold extend at h
      split at h
      · cases h
      next hc =>
        split at h
        · cases h
        next hl =>
          obtain ⟨hg, he⟩ := extendList_sound ps 0 ha (Decidable.of_not_not hl) h
          refine ⟨hg, ?_⟩
          rw [Term.under, he, Decidable.of_not_not hc]

theorem extendList_sound : (ps : List Term) → ∀ (i : Nat) {s s' : Substitution} {ts : List Term},
    Variable.Ascending s.domain → ts.length = ps.length → s.extendList i ts ps = .ok s' →
      s.Grows (Term.listOccurrences ps) s' ∧ Term.listUnder s'.value ps = ts
  | [], i, s, s', ts, ha, hl, h => by
    obtain rfl := List.length_eq_zero_iff.mp hl
    cases h
    exact ⟨⟨rfl, fun _ _ => rfl⟩, rfl⟩
  | p :: ps, i, s, s', ts, ha, hl, h => by
    cases ts with
    | nil => cases hl
    | cons t ts =>
      unfold extendList at h
      split at h
      · cases h
      next s₁ h₁ =>
        obtain ⟨hg₁, ht⟩ := extend_sound p ha h₁
        have hlen : ts.length = ps.length := Nat.succ.inj hl
        obtain ⟨hg, hts⟩ := extendList_sound ps (i + 1) (hg₁.ascending ha) hlen h
        refine ⟨hg₁.trans hg, ?_⟩
        -- What the first argument was matched with stays what it is.
        have hsame : p.under s'.value = p.under s₁.value :=
          Term.under_eq_under_iff.mpr fun v hv => hg.keeps v (hg₁.mem_domain hv)
        rw [Term.listUnder, hsame, ht, hts]

end

/-- What a substitution binds, an assignment gives as well. -/
def Agrees (s : Substitution) (σ : Variable → Term) : Prop :=
  ∀ v t, s.get? v = some t → σ v = t

mutual

/-- A term that some assignment makes of the pattern is matched. -/
theorem extend_complete : (p : Term) → ∀ {s : Substitution}, s.Agrees σ →
    ∃ s', s.extend (p.under σ) p = .ok s' ∧ s'.Agrees σ
  | .var v, s, h => by
    unfold extend
    cases hv : s.get? v with
    | none =>
      have hn : v ∉ s.domain := fun hm => by simp [get?_eq_some hm] at hv
      refine ⟨_, rfl, fun w t hw => ?_⟩
      rw [get?_insert hn] at hw
      split at hw
      next he =>
        cases hw
        rw [he]
        rfl
      · exact h w t hw
    | some u => exact ⟨s, by simp [Term.under, h v u hv], h⟩
  | .app d ps, s, h => by
    obtain ⟨s', hs', hagrees⟩ := extendList_complete ps 0 h
    refine ⟨s', ?_, hagrees⟩
    simpa [Term.under, extend, Term.listUnder_eq_map] using hs'

theorem extendList_complete : (ps : List Term) → ∀ (i : Nat) {s : Substitution}, s.Agrees σ →
    ∃ s', s.extendList i (Term.listUnder σ ps) ps = .ok s' ∧ s'.Agrees σ
  | [], i, s, h => ⟨s, rfl, h⟩
  | p :: ps, i, s, h => by
    obtain ⟨s₁, h₁, hagrees₁⟩ := extend_complete p h
    obtain ⟨s', hs', hagrees⟩ := extendList_complete ps (i + 1) hagrees₁
    refine ⟨s', ?_, hagrees⟩
    rw [Term.listUnder, extendList, h₁]
    exact hs'

end

mutual

theorem extend_error : (p : Term) → ∀ {s : Substitution} {t : Term} {reason : Mismatch},
    s.extend t p = .error reason → reason.cause ≠ .notGround
  | .var v, s, t, reason, h => by
    unfold extend at h
    split at h
    · cases h
    · split at h
      · cases h
      · cases h
        exact Discrepancy.noConfusion
  | .app d ps, s, t, reason, h => by
    cases t with
    | var w =>
      cases h
      exact Discrepancy.noConfusion
    | app c ts =>
      unfold extend at h
      split at h
      · cases h
        exact Discrepancy.noConfusion
      · split at h
        · cases h
          exact Discrepancy.noConfusion
        · exact extendList_error ps h

theorem extendList_error : (ps : List Term) →
    ∀ {s : Substitution} {i : Nat} {ts : List Term} {reason : Mismatch},
      s.extendList i ts ps = .error reason → reason.cause ≠ .notGround
  | [], s, i, ts, reason, h => by
    unfold extendList at h
    cases ts <;> cases h
  | p :: ps, s, i, ts, reason, h => by
    cases ts with
    | nil => cases h
    | cons t ts =>
      unfold extendList at h
      split at h
      next m hp =>
        cases h
        have hcause : m.cause ≠ .notGround := extend_error p hp
        exact hcause
      · exact extendList_error ps h

end

end Substitution

section

variable {goal pattern : Term} {s : Substitution} {reason : Mismatch}

theorem unify_eq_ok_iff : unify goal pattern = .ok s ↔
    goal.isGround = true ∧ Substitution.empty.extend goal pattern = .ok s := by
  unfold unify
  split <;> simp_all

/-- A goal that matches a pattern is what the bindings make of the pattern, and the pattern's
variables are those bound. -/
theorem unify_binds (h : unify goal pattern = .ok s) :
    s.domain = pattern.vars ∧ pattern.under s.value = goal := by
  have hempty : Variable.Ascending Substitution.empty.domain := List.Pairwise.nil
  obtain ⟨_, hs⟩ := unify_eq_ok_iff.mp h
  obtain ⟨hg, he⟩ := Substitution.extend_sound pattern hempty hs
  exact ⟨hg.domain, he⟩

theorem unify_isGround (h : unify goal pattern = .ok s) : goal.isGround = true :=
  (unify_eq_ok_iff.mp h).1

theorem Term.fits_iff : goal.fits pattern = true ↔ ∃ s, unify goal pattern = .ok s := by
  unfold fits
  cases unify goal pattern <;> simp

theorem exists_unify_iff : (∃ s, unify goal pattern = .ok s) ↔
    goal.isGround = true ∧ ∃ σ, pattern.under σ = goal := by
  constructor
  · rintro ⟨s, h⟩
    exact ⟨unify_isGround h, s.value, (unify_binds h).2⟩
  · rintro ⟨hg, σ, rfl⟩
    have hempty : Substitution.empty.Agrees σ := fun v t h => nomatch h
    obtain ⟨s, hs, _⟩ := Substitution.extend_complete pattern hempty
    exact ⟨s, unify_eq_ok_iff.mpr ⟨hg, hs⟩⟩

/-- Only a goal that is not ground is refused for that. -/
theorem unify_error (hg : goal.isGround = true) (h : unify goal pattern = .error reason) :
    reason.cause ≠ .notGround := by
  rw [unify, if_pos hg] at h
  exact Substitution.extend_error pattern h

/-- What a match binds to a variable is the part of the goal at the variable's places. -/
theorem contains_of_unify (h : unify goal pattern = .ok s) {v : Variable} {t : Term}
    (ht : s.get? v = some t) : goal.Contains t := by
  obtain ⟨hd, he⟩ := unify_binds h
  have hv : v ∈ pattern.vars := hd ▸ Substitution.mem_domain_of_get? ht
  have hc := (Term.mem_occurrences.mp (Term.mem_vars.mp hv)).under s.value
  rwa [he, Term.under, Substitution.value_of_get? ht] at hc

end

/-- Matching is sound, complete and minimal. It succeeds exactly for a ground goal that some
assignment makes of the pattern, and then binds the variables of the pattern and no others, each
to a ground part of the goal, so that the pattern becomes the goal; nothing else that binds just
these variables does so. -/
theorem unify_exact (goal pattern : Term) :
    ((∃ s, unify goal pattern = .ok s) ↔
      goal.isGround = true ∧ ∃ σ : Variable → Term, pattern.under σ = goal) ∧
    ∀ s, unify goal pattern = .ok s →
      s.isTotalOver pattern.vars = true ∧ s.domain = pattern.vars ∧
      (∀ v t, s.get? v = some t → t.isGround = true ∧ goal.Contains t) ∧
      s.apply pattern = .ok goal ∧
      ∀ s' : Substitution, s'.domain = pattern.vars → s'.apply pattern = .ok goal → s' = s := by
  refine ⟨exists_unify_iff, fun s h => ?_⟩
  obtain ⟨hd, he⟩ := unify_binds h
  have hbound : ∀ v ∈ pattern.occurrences, v ∈ s.domain := fun v hv =>
    hd ▸ Term.mem_vars.mpr hv
  refine ⟨Substitution.isTotalOver_iff.mpr fun v hv => hd ▸ hv, hd, fun v t ht => ?_,
    Substitution.apply_eq_ok_iff.mpr ⟨hbound, he⟩, fun s' hd' h' => ?_⟩
  · have hc := contains_of_unify h ht
    exact ⟨hc.isGround (unify_isGround h), hc⟩
  · obtain ⟨_, he'⟩ := Substitution.apply_eq_ok_iff.mp h'
    have hsame := Term.under_eq_under_iff.mp (he'.trans he.symm)
    refine Substitution.ext_of_domain (hd'.trans hd.symm) (hd' ▸ pattern.vars_ascending.nodup)
      fun v hv => ?_
    have hv' : v ∈ pattern.vars := hd' ▸ hv
    rw [Substitution.get?_eq_some hv, Substitution.get?_eq_some (hd ▸ hv' : v ∈ s.domain),
      hsame v (Term.mem_vars.mp hv')]

/-- A pattern with a variable that comes twice, and a goal with the same part at both places. -/
def twinPattern : Term :=
  .app "Pair" [.var ⟨2, "b"⟩, .app "Pair" [.var ⟨2, "b"⟩, .var ⟨1, "a"⟩]]

def twinGoal : Term :=
  .app "Pair" [.app "List" [.const "Int"], .app "Pair" [.app "List" [.const "Int"], .const "Bool"]]

theorem twins_unify : ∃ s, unify twinGoal twinPattern = .ok s ∧
    s.isTotalOver twinPattern.vars = true ∧ s.domain = [⟨1, "a"⟩, ⟨2, "b"⟩] ∧
    (∀ v t, s.get? v = some t → t.isGround = true ∧ twinGoal.Contains t) ∧
    s.apply twinPattern = .ok twinGoal ∧
    ∀ s' : Substitution, s'.domain = twinPattern.vars →
      s'.apply twinPattern = .ok twinGoal → s' = s := by
  have hvars : twinPattern.vars = [⟨1, "a"⟩, ⟨2, "b"⟩] := by decide
  obtain ⟨s, hs⟩ := (unify_exact twinGoal twinPattern).1.mpr
    ⟨by decide, fun v => if v = ⟨1, "a"⟩ then .const "Bool" else .app "List" [.const "Int"], rfl⟩
  obtain ⟨htotal, hdomain, hground, happly, honly⟩ := (unify_exact twinGoal twinPattern).2 s hs
  exact ⟨s, hs, htotal, hdomain.trans hvars, hground, happly, honly⟩

end Clausal
