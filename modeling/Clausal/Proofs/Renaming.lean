import Clausal.Proofs.Blurring
import Clausal.Proofs.Registration
import Clausal.Proofs.Specificity

namespace Clausal

namespace Term

variable {s t : Term} {ρ τ : Variable → Variable} {v w : Variable}

/-- The term with its variables renamed. -/
def renamed (ρ : Variable → Variable) (t : Term) : Term :=
  t.under fun v => .var (ρ v)

theorem renamed_app (ρ : Variable → Variable) (c : String) (ts : List Term) :
    (app c ts).renamed ρ = app c (ts.map (renamed ρ)) := by
  rw [renamed, under, listUnder_eq_map]
  rfl

theorem mem_occurrences_renamed : w ∈ (t.renamed ρ).occurrences ↔ ∃ v ∈ t.occurrences, ρ v = w := by
  simp only [renamed, mem_occurrences_under, occurrences, List.mem_singleton, eq_comm]

theorem applications_renamed (ρ : Variable → Variable) (t : Term) :
    (t.renamed ρ).applications = t.applications := by
  induction t with
  | var v => rfl
  | app c ts ih =>
    simp only [renamed_app, applications, List.length_map, listApplications_eq, List.flatMap_map]
    rw [List.flatMap_congr ih]

/-- A renaming that keeps the variables of a term apart makes a variant of it. -/
theorem variantOf_renamed (h : Set.InjOn ρ {v | v ∈ t.occurrences}) :
    (t.renamed ρ).VariantOf t := by
  refine ⟨ρ, ⟨?_, ?_, ?_⟩, rfl⟩
  · intro v hv
    exact mem_vars.mpr (mem_occurrences_renamed.mpr ⟨v, mem_vars.mp hv, rfl⟩)
  · intro v hv w hw he
    exact h (mem_vars.mp hv) (mem_vars.mp hw) he
  · intro w hw
    obtain ⟨v, hv, he⟩ := mem_occurrences_renamed.mp (mem_vars.mp hw)
    exact ⟨v, mem_vars.mpr hv, he⟩

/-- Two terms may be renamed apart or to the same variables without changing which is an instance
of which. -/
theorem dominates_renamed (hs : Set.InjOn ρ {v | v ∈ s.occurrences})
    (ht : Set.InjOn τ {v | v ∈ t.occurrences}) :
    (s.renamed ρ).dominates (t.renamed τ) = s.dominates t := by
  have hinstance : ∀ {s t : Term} {ρ τ : Variable → Variable},
      Set.InjOn ρ {v | v ∈ s.occurrences} → Set.InjOn τ {v | v ∈ t.occurrences} →
        ((s.renamed ρ).InstanceOf (t.renamed τ) ↔ s.InstanceOf t) := by
    intro s t ρ τ hs ht
    obtain ⟨hs₁, hs₂⟩ := variantOf_iff.mpr (variantOf_renamed hs)
    obtain ⟨ht₁, ht₂⟩ := variantOf_iff.mpr (variantOf_renamed ht)
    exact ⟨fun h => (hs₂.trans h).trans ht₁, fun h => (hs₁.trans h).trans ht₂⟩
  rw [Bool.eq_iff_iff, dominates_iff, dominates_iff, hinstance hs ht, hinstance ht hs]

end Term

def Requirement.renamed (ρ : Variable → Variable) (q : Requirement) : Requirement :=
  { q with pattern := q.pattern.renamed ρ }

def Clause.renamed (ρ : Variable → Variable) (c : Clause) : Clause :=
  { c with
    head := c.head.renamed ρ
    body := c.body.map (Requirement.renamed ρ) }

/-- The rule with its variables renamed as the renamings say for its number. -/
def Rule.renamed (ρ : RuleId → Variable → Variable) (r : Rule) : Rule :=
  { r with
    head := r.head.renamed (ρ r.id)
    body := r.body.map (Requirement.renamed (ρ r.id)) }

/-- The catalog with the variables of each rule renamed by a renaming of its own. -/
def Catalog.renamed (ρ : RuleId → Variable → Variable) (catalog : Catalog) : Catalog :=
  { catalog with rules := catalog.rules.map (Rule.renamed ρ) }

/-- The clauses with the variables of each renamed by a renaming of its own. -/
def renamedEach (ρ : RuleId → Variable → Variable) (clauses : List (String × Clause)) :
    List (String × Clause) :=
  clauses.mapIdx fun id e => (e.1, e.2.renamed (ρ id))

/-- A variable of the clause, in its head or its body. -/
def Clause.Has (c : Clause) (v : Variable) : Prop :=
  ∃ t ∈ c.patterns, v ∈ t.occurrences

/-- The rule's renaming keeps the variables of the head apart, and the body has no others. -/
structure Rule.Renamable (ρ : RuleId → Variable → Variable) (r : Rule) : Prop where
  apart : Set.InjOn (ρ r.id) {v | v ∈ r.head.occurrences}
  bound : ∀ q ∈ r.body, ∀ v ∈ q.pattern.occurrences, v ∈ r.head.occurrences

section

variable {ρ : Variable → Variable} {c : Clause} {arities next : Arities} {ctor : String}

theorem Clause.applications_renamed (ρ : Variable → Variable) (c : Clause) :
    (c.renamed ρ).applications = c.applications := by
  simp only [applications, renamed, Requirement.renamed, Term.applications_renamed,
    List.flatMap_map]

theorem Clause.check_renamed (ρ : Variable → Variable)
    (h : c.check arities = .ok (ctor, next)) :
    (c.renamed ρ).check arities = .ok (ctor, next) := by
  obtain ⟨hname, ⟨args, hhead⟩, hbound, hnote⟩ := check_ok h
  have hname' : (c.renamed ρ).name ≠ "" := hname
  have hhead' : (c.renamed ρ).head = .app ctor (args.map (Term.renamed ρ)) := by
    rw [renamed, hhead, Term.renamed_app]
  have hbound' : (c.renamed ρ).unboundVar? = none := by
    rw [unboundVar?_eq_none] at hbound ⊢
    simp only [renamed, List.forall_mem_map, Requirement.renamed, ← Term.mem_occurrences,
      Term.mem_occurrences_renamed] at hbound ⊢
    rintro q hq w ⟨v, hv, rfl⟩
    exact ⟨v, hbound q hq v hv, rfl⟩
  rw [← c.applications_renamed ρ] at hnote
  simp only [check, if_neg hname', hhead', hbound', hnote]

end

namespace Catalog

variable {catalog next : Catalog} {provider : String} {c : Clause}
  {clauses : List (String × Clause)} (ρ : RuleId → Variable → Variable)

/-- A renamed clause is registered next to renamed rules as the clause is next to the rules. -/
theorem register_renamed (h : catalog.register provider c = .ok next) :
    (catalog.renamed ρ).register provider (c.renamed (ρ catalog.rules.length)) =
      .ok (next.renamed ρ) := by
  obtain ⟨ctor, hcheck, hrules, hindex, hnew⟩ := register_ok h
  have hcheck' : (c.renamed (ρ catalog.rules.length)).check (catalog.renamed ρ).arities =
      .ok (ctor, next.arities) := Clause.check_renamed _ hcheck
  have hnew' : ((catalog.renamed ρ).rules.any fun r => r.name = qualifiedName provider c.name) =
      false := by
    rw [List.any_eq_false]
    intro r' hr'
    obtain ⟨r, hr, rfl⟩ := List.mem_map.mp hr'
    exact fun h => hnew r hr (of_decide_eq_true h)
  have hname : (c.renamed (ρ catalog.rules.length)).name = c.name := rfl
  have hlength : (catalog.renamed ρ).rules.length = catalog.rules.length := List.length_map _
  have hrules' : (next.renamed ρ).rules = (catalog.renamed ρ).rules ++
      [(c.renamed (ρ catalog.rules.length)).toRule catalog.rules.length provider] := by
    rw [renamed, hrules, List.map_append]
    rfl
  simp only [register, hname, hcheck', hnew', hlength, Bool.false_eq_true, if_false, ← hrules']
  simp only [renamed, hindex]

theorem registerAll_renamed (h : catalog.registerAll clauses = .ok next) :
    (catalog.renamed ρ).registerAll
        (clauses.mapIdx fun i e => (e.1, e.2.renamed (ρ (catalog.rules.length + i)))) =
      .ok (next.renamed ρ) := by
  induction clauses generalizing catalog with
  | nil =>
    cases h
    rfl
  | cons e rest ih =>
    obtain ⟨provider, c⟩ := e
    rw [registerAll] at h
    split at h
    next mid hmid =>
      obtain ⟨_, _, hrules, _⟩ := register_ok hmid
      have hlength : mid.rules.length = catalog.rules.length + 1 := by
        rw [hrules, List.length_append, List.length_singleton]
      have hrest := ih h
      simp only [hlength, Nat.add_assoc, Nat.add_comm 1] at hrest
      rw [List.mapIdx_cons, registerAll]
      simp only [Nat.add_zero, register_renamed ρ hmid, hrest]
    · cases h

/-- Renamed clauses build, and give the renamed catalog. -/
theorem build_renamed (h : build clauses = .ok catalog) :
    build (renamedEach ρ clauses) = .ok (catalog.renamed ρ) := by
  have hall := registerAll_renamed ρ h
  simp only [empty, List.length_nil, Nat.zero_add] at hall
  exact hall

theorem candidates_renamed (catalog : Catalog) (goal : Term) :
    (catalog.renamed ρ).candidates goal = (catalog.candidates goal).map (Rule.renamed ρ) := by
  have hrule : ∀ id, (catalog.renamed ρ).rule? id = (catalog.rule? id).map (Rule.renamed ρ) :=
    fun id => List.getElem?_map
  unfold candidates
  cases goal.ctor? with
  | none => rfl
  | some ctor =>
    dsimp only
    rw [List.map_filterMap, funext hrule]
    rfl

/-- What keeps the variables of each clause apart keeps those of each rule apart. -/
theorem renamable_of_build {ρ : RuleId → Variable → Variable} (h : build clauses = .ok catalog)
    (hρ : ∀ id e, clauses[id]? = some e → Set.InjOn (ρ id) {v | e.2.Has v}) :
    ∀ r ∈ catalog.rules, r.Renamable ρ := by
  intro r hr
  have hreg := registered_of_build h
  obtain ⟨id, e, he, rfl⟩ := hreg.mem_rules.mp hr
  refine ⟨?_, ?_⟩
  · have hhead : {v | v ∈ e.2.head.occurrences} ⊆ {v | e.2.Has v} := fun v hv =>
      ⟨e.2.head, List.mem_cons_self, hv⟩
    exact (hρ id e he).mono hhead
  · intro q hq v hv
    exact Term.mem_occurrences.mpr
      (hreg.wellFormed.bound e (List.mem_of_getElem? he) q hq v (Term.mem_occurrences.mp hv))

end Catalog

namespace Substitution

/-- What the one substitution binds to a variable of `vs`, the other binds to the renamed
variable. -/
def RenamedOn (ρ : Variable → Variable) (vs : List Variable) (s s' : Substitution) : Prop :=
  ∀ v ∈ vs, s'.get? (ρ v) = s.get? v

/-- Both matches succeed with the same bindings but for the names of the variables, or both fail
for the same reason but for the variable that it may name. -/
inductive MatchedAlike (ρ : Variable → Variable) (vs : List Variable) :
    Except Mismatch Substitution → Except Mismatch Substitution → Prop
  | ok {s s' : Substitution} : s.RenamedOn ρ vs s' → MatchedAlike ρ vs (.ok s) (.ok s')
  | error {m m' : Mismatch} : m'.blurred = m.blurred → MatchedAlike ρ vs (.error m) (.error m')

variable {ρ : Variable → Variable} {vs : List Variable} {s s' : Substitution} {p t : Term}

theorem RenamedOn.insert {v : Variable} (h : s.RenamedOn ρ vs s')
    (hρ : Set.InjOn ρ {v | v ∈ vs}) (hv : v ∈ vs) (hnew : s.get? v = none) (t : Term) :
    (s.insert v t).RenamedOn ρ vs (s'.insert (ρ v) t) := by
  have hnew' : s'.get? (ρ v) = none := (h v hv).trans hnew
  intro w hw
  rw [get?_insert (get?_eq_none_iff.mp hnew), get?_insert (get?_eq_none_iff.mp hnew'), h w hw]
  -- Were two variables of `vs` renamed to one, the new binding would show at both.
  by_cases he : w = v
  · rw [if_pos he, if_pos (congrArg ρ he)]
  · have hne : ρ w ≠ ρ v := fun heq => he (hρ hw hv heq)
    rw [if_neg he, if_neg hne]

mutual

/-- A renamed pattern is matched like the pattern, as long as the renaming keeps its variables
apart. The variables of the subject are let be. -/
theorem extend_renamed (hρ : Set.InjOn ρ {v | v ∈ vs}) : (p : Term) →
    (∀ v ∈ p.occurrences, v ∈ vs) → ∀ {s s' : Substitution} (t : Term), s.RenamedOn ρ vs s' →
      MatchedAlike ρ vs (s.extend t p) (s'.extend t (p.renamed ρ))
  | .var v, hp, s, s', t, h => by
    have hv : v ∈ vs := hp v (List.mem_singleton_self v)
    have hget : s'.get? (ρ v) = s.get? v := h v hv
    rw [Term.renamed, Term.under, extend, extend, hget]
    cases hs : s.get? v with
    | none => exact .ok (h.insert hρ hv hs t)
    | some u =>
      dsimp only
      by_cases hu : u = t
      · rw [if_pos hu, if_pos hu]
        exact .ok h
      · rw [if_neg hu, if_neg hu]
        exact .error rfl
  | .app d ps, hp, s, s', t, h => by
    -- No constructor is renamed and no argument added, so the walks stop at the same place.
    rw [Term.renamed_app]
    cases t with
    | var w => exact .error rfl
    | app c ts =>
      rw [extend, extend, List.length_map]
      by_cases hc : c ≠ d
      · rw [if_pos hc, if_pos hc]
        exact .error rfl
      · rw [if_neg hc, if_neg hc]
        by_cases hl : ts.length ≠ ps.length
        · rw [if_pos hl, if_pos hl]
          exact .error rfl
        · rw [if_neg hl, if_neg hl]
          exact extendList_renamed hρ ps hp 0 ts h

theorem extendList_renamed (hρ : Set.InjOn ρ {v | v ∈ vs}) : (ps : List Term) →
    (∀ v ∈ Term.listOccurrences ps, v ∈ vs) → ∀ (i : Nat) {s s' : Substitution} (ts : List Term),
      s.RenamedOn ρ vs s' →
        MatchedAlike ρ vs (s.extendList i ts ps) (s'.extendList i ts (ps.map (Term.renamed ρ)))
  | [], hps, i, s, s', ts, h => by
    cases ts <;> exact .ok h
  | p :: ps, hps, i, s, s', [], h => .ok h
  | p :: ps, hps, i, s, s', t :: ts, h => by
    have hhead := extend_renamed hρ p (fun v hv => hps v (List.mem_append_left _ hv)) t h
    rw [List.map_cons, extendList, extendList]
    generalize s.extend t p = a, s'.extend t (p.renamed ρ) = b at hhead ⊢
    cases hhead with
    | error hm =>
      refine .error ?_
      simp only [Mismatch.blurred, Mismatch.mk.injEq] at hm
      simp only [Mismatch.inArgument, Mismatch.blurred, hm.1, hm.2]
    | ok hs =>
      exact extendList_renamed hρ ps (fun v hv => hps v (List.mem_append_right _ hv)) (i + 1) ts hs

end

theorem unify_renamed (hρ : Set.InjOn ρ {v | v ∈ p.occurrences}) (goal : Term) :
    MatchedAlike ρ p.occurrences (unify goal p) (unify goal (p.renamed ρ)) := by
  unfold unify
  by_cases hg : goal.isGround = true
  · rw [if_pos hg, if_pos hg]
    exact extend_renamed hρ p (fun v hv => hv) goal fun v _ => rfl
  · rw [if_neg hg, if_neg hg]
    exact .error rfl

theorem RenamedOn.apply (h : s.RenamedOn ρ vs s') (hp : ∀ v ∈ p.occurrences, v ∈ vs)
    (ht : s.apply p = .ok t) : s'.apply (p.renamed ρ) = .ok t := by
  obtain ⟨hd, rfl⟩ := apply_eq_ok_iff.mp ht
  have hvalue : ∀ v ∈ p.occurrences, s'.get? (ρ v) = some (s.value v) := fun v hv =>
    (h v (hp v hv)).trans (get?_eq_some (hd v hv))
  refine apply_eq_ok_iff.mpr ⟨fun w hw => ?_, ?_⟩
  · obtain ⟨v, hv, rfl⟩ := Term.mem_occurrences_renamed.mp hw
    exact mem_domain_of_get? (hvalue v hv)
  · rw [Term.renamed, Term.under_under]
    exact Term.under_eq_under_iff.mpr fun v hv => value_of_get? (hvalue v hv)

end Substitution

/-- A rule and its renamed rule ask for the same goals, of which there is one for each
requirement. -/
theorem Rule.Renamable.asks {ρ : RuleId → Variable → Variable} {r : Rule} (h : r.Renamable ρ)
    {goal : Term} {s s' : Substitution} (hu : unify goal r.head = .ok s)
    (hs : s.RenamedOn (ρ r.id) r.head.occurrences s') {q : Requirement} (hq : q ∈ r.body) :
    ∃ subgoal, s.apply q.pattern = .ok subgoal ∧
      s'.apply (q.pattern.renamed (ρ r.id)) = .ok subgoal := by
  have hd : ∀ v ∈ q.pattern.occurrences, v ∈ s.domain := fun v hv => by
    rw [(unify_binds hu).1]
    exact Term.mem_vars.mpr (h.bound q hq v hv)
  have happly := Substitution.apply_of_domain q.pattern hd
  exact ⟨_, happly, hs.apply (h.bound q hq) happly⟩

end Clausal
