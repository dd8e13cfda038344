import Clausal.Proofs.Assignments
import Clausal.Proofs.Candidates

namespace Clausal

/-- The patterns of a clause in reading order. -/
def Clause.patterns (c : Clause) : List Term :=
  c.head :: c.body.map Requirement.pattern

/-- A constructor is applied to `n` arguments somewhere in the clause. -/
def Clause.Applies (c : Clause) (ctor : String) (n : Nat) : Prop :=
  c.head.Applies ctor n ∨ ∃ r ∈ c.body, r.pattern.Applies ctor n

/-- The clauses can make up a catalog. -/
structure WellFormed (clauses : List (String × Clause)) : Prop where
  named : ∀ e ∈ clauses, e.2.name ≠ ""
  headed : ∀ e ∈ clauses, ∃ ctor args, e.2.head = .app ctor args
  bound : ∀ e ∈ clauses, ∀ r ∈ e.2.body, ∀ v, r.pattern.Contains (.var v) →
    e.2.head.Contains (.var v)
  labelled : ∀ e ∈ clauses, ∀ n, ¬e.2.Applies "" n
  arities : ∃ arity : String → Nat, ∀ e ∈ clauses, ∀ ctor n, e.2.Applies ctor n → n = arity ctor
  distinct : (clauses.map fun e => qualifiedName e.1 e.2.name).Nodup

/-- The patterns of clauses in reading order. -/
def patternsOf (clauses : List (String × Clause)) : List Term :=
  clauses.flatMap fun e => e.2.patterns

/-- What is said to be wrong with a clause is so, given the clauses before it. -/
def Malformation.Holds (before : List (String × Clause)) (provider : String) (c : Clause) :
    Malformation → Prop
  | .emptyName => c.name = ""
  | .variableHead v => c.head = .var v
  | .emptyConstructor => ∃ n, c.Applies "" n
  | .unboundBodyVariable v =>
    (∃ r ∈ c.body, r.pattern.Contains (.var v)) ∧ ¬c.head.Contains (.var v)
  | .arityConflict ctor expected found =>
    Term.FirstApplies (Term.listAt? (patternsOf (before ++ [(provider, c)]))) ctor expected ∧
      c.Applies ctor found ∧ found ≠ expected
  | .duplicate => ∃ e ∈ before, qualifiedName e.1 e.2.name = qualifiedName provider c.name

section

variable {c : Clause} {ctor : String} {n : Nat} {clauses before after : List (String × Clause)}

theorem Clause.applications_eq (c : Clause) :
    c.applications = c.patterns.flatMap Term.applications := by
  simp [applications, patterns, List.flatMap_map]

theorem Clause.applies_iff : c.Applies ctor n ↔ ∃ t ∈ c.patterns, t.Applies ctor n := by
  simp [Applies, patterns]

theorem Clause.mem_applications : (ctor, n) ∈ c.applications ↔ c.Applies ctor n := by
  rw [applications_eq, applies_iff, List.mem_flatMap]
  simp only [Term.mem_applications]

theorem applications_patternsOf (clauses : List (String × Clause)) :
    (patternsOf clauses).flatMap Term.applications =
      clauses.flatMap fun e => e.2.applications := by
  simp only [patternsOf, List.flatMap_assoc, Clause.applications_eq]

theorem exists_applies_of_firstApplies
    (h : Term.FirstApplies (Term.listAt? (patternsOf clauses)) ctor n) :
    ∃ e ∈ clauses, e.2.Applies ctor n := by
  obtain ⟨p, args, hp, hn, _⟩ := h
  match p with
  | [] => cases hp
  | i :: p =>
    obtain ⟨t, ht, hargs⟩ := Option.bind_eq_some_iff.mp hp
    obtain ⟨e, he, hpat⟩ := List.mem_flatMap.mp (List.mem_of_getElem? ht)
    exact ⟨e, he, Clause.applies_iff.mpr ⟨t, hpat, args, ⟨p, hargs⟩, hn⟩⟩

theorem WellFormed.empty : WellFormed [] where
  named := by simp
  headed := by simp
  bound := by simp
  labelled := by simp
  arities := ⟨fun _ => 0, by simp⟩
  distinct := List.nodup_nil

theorem WellFormed.left (h : WellFormed (before ++ after)) : WellFormed before where
  named e he := h.named e (List.mem_append_left _ he)
  headed e he := h.headed e (List.mem_append_left _ he)
  bound e he := h.bound e (List.mem_append_left _ he)
  labelled e he := h.labelled e (List.mem_append_left _ he)
  arities := by
    obtain ⟨arity, ha⟩ := h.arities
    exact ⟨arity, fun e he => ha e (List.mem_append_left _ he)⟩
  distinct := by
    have hd := h.distinct
    rw [List.map_append] at hd
    exact (List.nodup_append.mp hd).1

theorem WellFormed.concat {provider : String} (h : WellFormed before) (hname : c.name ≠ "")
    (hhead : ∃ ctor args, c.head = .app ctor args)
    (hbound : ∀ r ∈ c.body, ∀ v, r.pattern.Contains (.var v) → c.head.Contains (.var v))
    (hlabels : ∀ n, ¬c.Applies "" n)
    (harities : ∃ arity : String → Nat, ∀ e ∈ before ++ [(provider, c)], ∀ ctor n,
      e.2.Applies ctor n → n = arity ctor)
    (hnew : ∀ e ∈ before, qualifiedName e.1 e.2.name ≠ qualifiedName provider c.name) :
    WellFormed (before ++ [(provider, c)]) where
  named := List.forall_mem_append.mpr ⟨h.named, List.forall_mem_singleton.mpr hname⟩
  headed := List.forall_mem_append.mpr ⟨h.headed, List.forall_mem_singleton.mpr hhead⟩
  bound := List.forall_mem_append.mpr ⟨h.bound, List.forall_mem_singleton.mpr hbound⟩
  labelled := List.forall_mem_append.mpr ⟨h.labelled, List.forall_mem_singleton.mpr hlabels⟩
  arities := harities
  distinct := by
    rw [List.map_append, List.nodup_append]
    refine ⟨h.distinct, List.pairwise_singleton _ _, fun name hold other hlast he => ?_⟩
    obtain ⟨e, hmem, hn⟩ := List.mem_map.mp hold
    obtain rfl := List.mem_singleton.mp hlast
    exact hnew e hmem (hn.trans he)

/-- Clauses one of which has something wrong with it are not well-formed. -/
theorem Malformation.Holds.not_wellFormed {reason : Malformation} {provider : String}
    (h : reason.Holds before provider c) : ¬WellFormed (before ++ [(provider, c)]) := by
  intro hw
  have hc : (provider, c) ∈ before ++ [(provider, c)] := by simp
  cases reason with
  | emptyName => exact hw.named _ hc h
  | variableHead v =>
    obtain ⟨ctor, args, he⟩ := hw.headed _ hc
    cases he.symm.trans h
  | emptyConstructor =>
    obtain ⟨n, hn⟩ := h
    exact hw.labelled _ hc n hn
  | unboundBodyVariable v =>
    obtain ⟨⟨r, hr, hv⟩, hn⟩ := h
    exact hn (hw.bound _ hc r hr v hv)
  | arityConflict ctor expected found =>
    obtain ⟨hfirst, hfound, hne⟩ := h
    obtain ⟨arity, ha⟩ := hw.arities
    obtain ⟨e, he, hexpected⟩ := exists_applies_of_firstApplies hfirst
    exact hne ((ha _ hc ctor found hfound).trans (ha e he ctor expected hexpected).symm)
  | duplicate =>
    obtain ⟨e, he, hname⟩ := h
    have hd := hw.distinct
    rw [List.map_append, List.nodup_append] at hd
    exact hd.2.2 _ (List.mem_map_of_mem he) _ (List.mem_singleton_self _) hname

end

namespace Arities

variable {arities next : Arities} {ctor : String} {n : Nat} {reason : Malformation}

theorem note_ok (h : arities.note ctor n = .ok next) : ctor ≠ "" ∧ next.lookup ctor = some n ∧
    ∀ other, next.lookup other = (arities ++ [(ctor, n)]).lookup other := by
  unfold note at h
  split at h
  · cases h
  next hne =>
    split at h
    next hn =>
      cases h
      refine ⟨hne, ?_, fun _ => rfl⟩
      rw [List.lookup_append, hn, Option.none_or, List.lookup_cons_self]
    next expected he =>
      split at h
      next heq =>
        cases h
        refine ⟨hne, heq ▸ he, fun other => ?_⟩
        rw [List.lookup_append, List.lookup_cons]
        by_cases ho : other = ctor
        · rw [ho, he, Option.some_or]
        · rw [beq_eq_false_iff_ne.mpr ho]
          simp
      · cases h

theorem note_error (h : arities.note ctor n = .error reason) :
    reason = .emptyConstructor ∧ ctor = "" ∨ ∃ expected, reason = .arityConflict ctor expected n ∧
      arities.lookup ctor = some expected ∧ n ≠ expected := by
  unfold note at h
  split at h
  next hempty =>
    cases h
    exact .inl ⟨rfl, hempty⟩
  · split at h
    · cases h
    next expected he =>
      split at h
      · cases h
      next hne =>
        cases h
        exact .inr ⟨expected, rfl, he, fun h => hne h.symm⟩

/-- Arities that are noted are those of the first applications. -/
theorem noteAll_ok {apps : List (String × Nat)} (h : arities.noteAll apps = .ok next) :
    (∀ ctor, next.lookup ctor = (arities ++ apps).lookup ctor) ∧
      ∀ ctor n, (ctor, n) ∈ apps → ctor ≠ "" ∧ next.lookup ctor = some n := by
  induction apps generalizing arities with
  | nil =>
    cases h
    exact ⟨fun ctor => by rw [List.append_nil], fun _ _ hm => nomatch hm⟩
  | cons app apps ih =>
    obtain ⟨ctor, n⟩ := app
    unfold noteAll at h
    split at h
    next mid hmid =>
      obtain ⟨hne, hself, hlook⟩ := note_ok hmid
      obtain ⟨hnext, hall⟩ := ih h
      refine ⟨fun other => ?_, fun other m hm => ?_⟩
      · rw [hnext, List.lookup_append, hlook, ← List.lookup_append, List.append_assoc,
          List.singleton_append]
      · rcases List.mem_cons.mp hm with he | hm
        · cases he
          exact ⟨hne, by rw [hnext, List.lookup_append, hself, Option.some_or]⟩
        · exact hall other m hm
    · cases h

theorem noteAll_error {apps : List (String × Nat)} (h : arities.noteAll apps = .error reason) :
    (reason = .emptyConstructor ∧ ∃ n, ("", n) ∈ apps) ∨
      ∃ ctor expected found, reason = .arityConflict ctor expected found ∧
        (arities ++ apps).lookup ctor = some expected ∧ (ctor, found) ∈ apps ∧
          found ≠ expected := by
  induction apps generalizing arities with
  | nil => cases h
  | cons app apps ih =>
    obtain ⟨ctor, n⟩ := app
    unfold noteAll at h
    split at h
    next mid hmid =>
      obtain ⟨_, _, hlook⟩ := note_ok hmid
      rcases ih h with ⟨hr, m, hm⟩ | ⟨other, expected, found, hr, hl, hm, hne⟩
      · exact .inl ⟨hr, m, List.mem_cons_of_mem _ hm⟩
      · refine .inr ⟨other, expected, found, hr, ?_, List.mem_cons_of_mem _ hm, hne⟩
        rwa [List.lookup_append, hlook, ← List.lookup_append, List.append_assoc,
          List.singleton_append] at hl
    next hmid =>
      cases h
      rcases note_error hmid with ⟨hr, rfl⟩ | ⟨expected, hr, hl, hne⟩
      · exact .inl ⟨hr, n, List.mem_cons_self⟩
      · refine .inr ⟨ctor, expected, n, hr, ?_, List.mem_cons_self, hne⟩
        rw [List.lookup_append, hl, Option.some_or]

end Arities

namespace Clause

variable {c : Clause}

theorem unboundVar?_eq_none : c.unboundVar? = none ↔
    ∀ r ∈ c.body, ∀ v, r.pattern.Contains (.var v) → c.head.Contains (.var v) := by
  have hmem : ∀ v, c.head.vars.contains v = true ↔ c.head.Contains (.var v) := fun v => by
    rw [List.contains_iff_mem, Term.mem_vars, Term.mem_occurrences]
  rw [unboundVar?, List.find?_eq_none]
  simp only [mem_bodyVars, Bool.not_eq_true', Bool.not_eq_false, hmem, Term.mem_occurrences]
  constructor
  · exact fun h r hr v hv => h v ⟨r, hr, hv⟩
  · rintro h v ⟨r, hr, hv⟩
    exact h r hr v hv

theorem unboundVar?_eq_some {v : Variable} (h : c.unboundVar? = some v) :
    (∃ r ∈ c.body, r.pattern.Contains (.var v)) ∧ ¬c.head.Contains (.var v) := by
  have hmem := List.mem_of_find?_eq_some h
  have hnot := List.find?_some h
  obtain ⟨r, hr, hv⟩ := mem_bodyVars.mp hmem
  refine ⟨⟨r, hr, Term.mem_occurrences.mp hv⟩, fun hc => ?_⟩
  have hhead : v ∈ c.head.vars := Term.mem_vars.mpr (Term.mem_occurrences.mpr hc)
  simp [hhead] at hnot

end Clause

/-- A catalog holds just what well-formed clauses give. -/
structure Registered (clauses : List (String × Clause)) (catalog : Catalog) : Prop where
  rules : catalog.rules = clauses.mapIdx fun id e => e.2.toRule id e.1
  arities : ∀ ctor, catalog.arities.lookup ctor =
    (clauses.flatMap fun e => e.2.applications).lookup ctor
  wellFormed : WellFormed clauses

namespace Registered

variable {clauses before rest : List (String × Clause)} {catalog next : Catalog}
  {provider : String} {c : Clause} {e : CatalogError} {r : Rule} {ctor : String} {n : Nat}

theorem empty : Registered [] Catalog.empty :=
  ⟨rfl, fun _ => rfl, .empty⟩

theorem mem_rules (h : Registered clauses catalog) :
    r ∈ catalog.rules ↔ ∃ id, ∃ e : String × Clause,
      clauses[id]? = some e ∧ e.2.toRule id e.1 = r := by
  rw [h.rules, List.mem_iff_getElem?]
  simp only [List.getElem?_mapIdx, Option.map_eq_some_iff]

theorem names (h : Registered clauses catalog) :
    catalog.rules.map Rule.name = clauses.map fun e => qualifiedName e.1 e.2.name := by
  refine List.ext_getElem? fun id => ?_
  rw [h.rules, List.getElem?_map, List.getElem?_mapIdx, List.getElem?_map, Option.map_map]
  rfl

theorem exists_name_iff (h : Registered clauses catalog) (name : String) :
    (∃ r ∈ catalog.rules, r.name = name) ↔
      ∃ e ∈ clauses, qualifiedName e.1 e.2.name = name := by
  constructor
  · rintro ⟨r, hr, hn⟩
    obtain ⟨id, e, he, rfl⟩ := h.mem_rules.mp hr
    exact ⟨e, List.mem_of_getElem? he, hn⟩
  · rintro ⟨e, he, hn⟩
    obtain ⟨id, hid⟩ := List.mem_iff_getElem?.mp he
    exact ⟨_, h.mem_rules.mpr ⟨id, e, hid, rfl⟩, hn⟩

/-- The arities of a catalog are those of all applications in its clauses. -/
theorem arity?_eq_some (h : Registered clauses catalog) :
    catalog.arity? ctor = some n ↔ ∃ e ∈ clauses, e.2.Applies ctor n := by
  have hfound : ∀ m, catalog.arity? ctor = some m → ∃ e ∈ clauses, e.2.Applies ctor m := by
    intro m hm
    rw [Catalog.arity?, h.arities] at hm
    obtain ⟨_, _, hsplit, _⟩ := List.lookup_eq_some_iff.mp hm
    have hmem : (ctor, m) ∈ clauses.flatMap fun e => e.2.applications := by simp [hsplit]
    obtain ⟨e, he, ha⟩ := List.mem_flatMap.mp hmem
    exact ⟨e, he, Clause.mem_applications.mp ha⟩
  refine ⟨hfound n, fun ⟨e, he, ha⟩ => ?_⟩
  have hsome : (catalog.arity? ctor).isSome = true := by
    rw [Catalog.arity?, h.arities, List.lookup_isSome_iff]
    exact ⟨_, List.mem_flatMap.mpr ⟨e, he, Clause.mem_applications.mpr ha⟩, beq_self_eq_true _⟩
  obtain ⟨m, hm⟩ := Option.isSome_iff_exists.mp hsome
  obtain ⟨e', he', ha'⟩ := hfound m hm
  obtain ⟨arity, harity⟩ := h.wellFormed.arities
  rw [hm, harity e he ctor n ha, harity e' he' ctor m ha']

theorem register_ok (h : Registered before catalog)
    (hr : catalog.register provider c = .ok next) :
    Registered (before ++ [(provider, c)]) next := by
  obtain ⟨d, hc, hrules, _, hnew⟩ := Catalog.register_ok hr
  obtain ⟨hname, ⟨args, hhead⟩, hbound, hnote⟩ := Clause.check_ok hc
  obtain ⟨hlook, hnoted⟩ := Arities.noteAll_ok hnote
  have hall : ∀ e ∈ before ++ [(provider, c)], ∀ ctor n, e.2.Applies ctor n →
      next.arities.lookup ctor = some n := by
    refine List.forall_mem_append.mpr ⟨fun e he ctor n ha => ?_,
      List.forall_mem_singleton.mpr fun ctor n ha => ?_⟩
    · -- The arities seen so far do not change.
      have hold : catalog.arities.lookup ctor = some n := h.arity?_eq_some.mpr ⟨e, he, ha⟩
      rw [hlook, List.lookup_append, hold, Option.some_or]
    · exact (hnoted ctor n (Clause.mem_applications.mpr ha)).2
  refine ⟨?_, fun ctor => ?_, ?_⟩
  · rw [hrules, h.rules, List.mapIdx_concat, List.length_mapIdx]
  · rw [hlook, List.lookup_append, h.arities, ← List.lookup_append, List.flatMap_append,
      List.flatMap_singleton]
  · refine h.wellFormed.concat hname ⟨d, args, hhead⟩ (Clause.unboundVar?_eq_none.mp hbound)
      (fun n ha => (hnoted "" n (Clause.mem_applications.mpr ha)).1 rfl)
      ⟨fun ctor => (next.arities.lookup ctor).getD 0, fun e he ctor n ha => ?_⟩ fun e he hn => ?_
    · simp only [hall e he ctor n ha, Option.getD_some]
    · obtain ⟨r, hr, hrn⟩ := (h.exists_name_iff _).mpr ⟨e, he, hn⟩
      exact hnew r hr hrn

theorem register_error (h : Registered before catalog)
    (hr : catalog.register provider c = .error e) :
    e.rule = qualifiedName provider c.name ∧ e.reason.Holds before provider c := by
  obtain ⟨hrule, hreason⟩ := Catalog.register_error hr
  refine ⟨hrule, ?_⟩
  rcases hreason with hc | ⟨hd, hold⟩
  · rcases Clause.check_error hc with ⟨he, hn⟩ | ⟨v, he, hv⟩ | ⟨v, he, hv⟩ | hnote
    · rw [he]
      exact hn
    · rw [he]
      exact hv
    · rw [he]
      exact Clause.unboundVar?_eq_some hv
    · rcases Arities.noteAll_error hnote with ⟨he, n, hn⟩ | ⟨ctor, expected, found, he, hl, hm, hne⟩
      · rw [he]
        exact ⟨n, Clause.mem_applications.mp hn⟩
      · rw [he]
        refine ⟨?_, Clause.mem_applications.mp hm, hne⟩
        refine Term.firstApplies_list (fun t _ => t.firstApplies_of_lookup) ?_
        rw [applications_patternsOf, List.flatMap_append, List.flatMap_singleton,
          List.lookup_append, ← h.arities, ← List.lookup_append, hl]
  · rw [hd]
    exact (h.exists_name_iff _).mp hold

theorem registerAll_ok (h : Registered before catalog)
    (hr : catalog.registerAll rest = .ok next) : Registered (before ++ rest) next := by
  induction rest generalizing before catalog with
  | nil =>
    cases hr
    rwa [List.append_nil]
  | cons entry rest ih =>
    obtain ⟨provider, c⟩ := entry
    unfold Catalog.registerAll at hr
    split at hr
    next mid hmid =>
      have hrest := ih (h.register_ok hmid) hr
      rwa [List.append_assoc, List.singleton_append] at hrest
    · cases hr

/-- Registration stops at the first clause with which the clauses are not well-formed. -/
theorem registerAll_error (h : Registered before catalog)
    (hr : catalog.registerAll rest = .error e) : ∃ middle provider c after,
      rest = middle ++ (provider, c) :: after ∧ WellFormed (before ++ middle) ∧
        e.rule = qualifiedName provider c.name ∧ e.reason.Holds (before ++ middle) provider c := by
  induction rest generalizing before catalog with
  | nil => cases hr
  | cons entry rest ih =>
    obtain ⟨provider, c⟩ := entry
    unfold Catalog.registerAll at hr
    split at hr
    next mid hmid =>
      obtain ⟨middle, provider', c', after, hrest, hw, hrule, hreason⟩ :=
        ih (h.register_ok hmid) hr
      rw [List.append_assoc, List.singleton_append] at hw hreason
      exact ⟨(provider, c) :: middle, provider', c', after, by rw [hrest]; rfl, hw, hrule, hreason⟩
    next he =>
      cases hr
      obtain ⟨hrule, hreason⟩ := h.register_error he
      exact ⟨[], provider, c, rest, rfl, by simpa using h.wellFormed, hrule, by simpa using hreason⟩

end Registered

theorem registered_of_build {clauses : List (String × Clause)} {catalog : Catalog}
    (h : Catalog.build clauses = .ok catalog) : Registered clauses catalog :=
  Registered.empty.registerAll_ok h

theorem refused_of_build {clauses : List (String × Clause)} {e : CatalogError}
    (h : Catalog.build clauses = .error e) : ∃ before provider c after,
      clauses = before ++ (provider, c) :: after ∧ WellFormed before ∧
      ¬WellFormed (before ++ [(provider, c)]) ∧ e.rule = qualifiedName provider c.name ∧
      e.reason.Holds before provider c := by
  obtain ⟨before, provider, c, after, hsplit, hw, hrule, hreason⟩ :=
    Registered.empty.registerAll_error h
  exact ⟨before, provider, c, after, hsplit, hw, hreason.not_wellFormed, hrule, hreason⟩

theorem exists_build_iff {clauses : List (String × Clause)} :
    (∃ catalog, Catalog.build clauses = .ok catalog) ↔ WellFormed clauses := by
  refine ⟨fun ⟨catalog, h⟩ => (registered_of_build h).wellFormed, fun hw => ?_⟩
  cases hbuild : Catalog.build clauses with
  | ok catalog => exact ⟨catalog, rfl⟩
  | error e =>
    obtain ⟨before, provider, c, after, rfl, _, hnot, _⟩ := refused_of_build hbuild
    rw [← List.singleton_append, ← List.append_assoc] at hw
    exact absurd hw.left hnot

namespace Catalog

variable {catalog next : Catalog} {rest taken after : List (String × Clause)}
  {answer : Except CatalogError Catalog}

theorem size_of_register {provider : String} {c : Clause}
    (h : catalog.register provider c = .ok next) : next.size = catalog.size + 1 := by
  obtain ⟨_, _, hrules, _⟩ := register_ok h
  rw [size, hrules, List.length_append, List.length_singleton, size]

/-- An answer is the one that unlimited numbers would give. -/
theorem registerAll_of_registerAll? (h : catalog.registerAll? rest = some answer) :
    catalog.registerAll rest = answer := by
  induction rest generalizing catalog with
  | nil => exact Option.some.inj h
  | cons entry rest ih =>
    obtain ⟨provider, c⟩ := entry
    unfold registerAll? at h
    unfold registerAll
    split at h
    · split at h
      · exact ih h
      · cases h
    · exact Option.some.inj h

/-- Whatever the answer, no rule has been registered beyond the last number. -/
theorem size_le_of_registerAll? (h : catalog.registerAll? (taken ++ after) = some answer)
    (ht : catalog.registerAll taken = .ok next) (hsize : catalog.size ≤ RuleId.count) :
    catalog.size + taken.length ≤ RuleId.count := by
  induction taken generalizing catalog with
  | nil => exact hsize
  | cons entry taken ih =>
    obtain ⟨provider, c⟩ := entry
    unfold registerAll at ht
    split at ht
    next mid hmid =>
      have hmidSize := size_of_register hmid
      simp only [List.cons_append, registerAll?, hmid] at h
      split at h
      next hroom =>
        have hrest := ih h ht (by omega)
        rw [List.length_cons]
        omega
      · cases h
    · cases ht

/-- There is no answer if a clause can be registered after all numbers are given out. -/
theorem registered_of_registerAll? (h : catalog.registerAll? rest = none) :
    ∃ taken after next, rest = taken ++ after ∧ catalog.registerAll taken = .ok next ∧
      RuleId.count < catalog.size + taken.length := by
  induction rest generalizing catalog with
  | nil => cases h
  | cons entry rest ih =>
    obtain ⟨provider, c⟩ := entry
    unfold registerAll? at h
    split at h
    next mid hmid =>
      have hmidSize := size_of_register hmid
      split at h
      · obtain ⟨taken, after, next, hsplit, hnext, hlength⟩ := ih h
        refine ⟨(provider, c) :: taken, after, next, by rw [hsplit]; rfl, ?_, ?_⟩
        · rw [registerAll, hmid]
          exact hnext
        · rw [List.length_cons]
          omega
      next hfull =>
        refine ⟨[(provider, c)], rest, mid, rfl, by rw [registerAll, hmid]; rfl, ?_⟩
        rw [List.length_singleton]
        omega
    · cases h

end Catalog

/-- Only more clauses than there are numbers get no answer, if they are well-formed that far. -/
theorem build?_eq_none_iff {clauses : List (String × Clause)} : Catalog.build? clauses = none ↔
    RuleId.count < clauses.length ∧ WellFormed (clauses.take (RuleId.count + 1)) := by
  constructor
  · intro h
    obtain ⟨taken, after, next, rfl, hnext, hlength⟩ := Catalog.registered_of_registerAll? h
    have hcount : RuleId.count < taken.length := by
      simpa [Catalog.size, Catalog.empty] using hlength
    have hw : WellFormed taken := exists_build_iff.mp ⟨next, hnext⟩
    refine ⟨by rw [List.length_append]; omega, ?_⟩
    rw [List.take_append_of_le_length hcount]
    rw [← List.take_append_drop (RuleId.count + 1) taken] at hw
    exact hw.left
  · rintro ⟨hlength, hw⟩
    obtain ⟨next, hnext⟩ := exists_build_iff.mpr hw
    by_contra hsome
    obtain ⟨answer, hanswer⟩ := Option.ne_none_iff_exists'.mp hsome
    rw [← List.take_append_drop (RuleId.count + 1) clauses] at hanswer
    have hle := Catalog.size_le_of_registerAll? hanswer hnext (Nat.zero_le _)
    rw [List.length_take] at hle
    omega

/-- As far as the numbers go, there is an answer, and it is the one that unlimited numbers give. -/
theorem build?_eq_some {clauses : List (String × Clause)} (h : clauses.length ≤ RuleId.count) :
    Catalog.build? clauses = some (Catalog.build clauses) := by
  cases hanswer : Catalog.build? clauses with
  | none => exact absurd (build?_eq_none_iff.mp hanswer).1 (Nat.not_lt.mpr h)
  | some answer => exact congrArg some (Catalog.registerAll_of_registerAll? hanswer).symm

/-- Exactly the well-formed clauses make up a catalog, as far as there are numbers for them. Others
are refused at the first clause with which they are not well-formed, for something that is wrong
with it given the clauses before it. There is no answer where the clauses are well-formed beyond the
last number, whatever comes after these. -/
theorem build_exact (clauses : List (String × Clause)) :
    ((∃ catalog, Catalog.build? clauses = some (.ok catalog)) ↔
      WellFormed clauses ∧ clauses.length ≤ RuleId.count) ∧
    (∀ e, Catalog.build? clauses = some (.error e) → ∃ before provider c after,
      clauses = before ++ (provider, c) :: after ∧ WellFormed before ∧
      ¬WellFormed (before ++ [(provider, c)]) ∧ e.rule = qualifiedName provider c.name ∧
      e.reason.Holds before provider c) ∧
    (Catalog.build? clauses = none ↔
      RuleId.count < clauses.length ∧ WellFormed (clauses.take (RuleId.count + 1))) := by
  refine ⟨⟨?_, ?_⟩, fun e he => refused_of_build (Catalog.registerAll_of_registerAll? he),
    build?_eq_none_iff⟩
  · rintro ⟨catalog, h⟩
    have hbuild : Catalog.build clauses = .ok catalog := Catalog.registerAll_of_registerAll? h
    have hlength : clauses.length ≤ RuleId.count := by
      rw [← List.append_nil clauses] at h
      simpa [Catalog.size, Catalog.empty] using
        Catalog.size_le_of_registerAll? h hbuild (Nat.zero_le _)
    exact ⟨exists_build_iff.mp ⟨catalog, hbuild⟩, hlength⟩
  · rintro ⟨hw, hlength⟩
    obtain ⟨catalog, hbuild⟩ := exists_build_iff.mpr hw
    exact ⟨catalog, by rw [build?_eq_some hlength, hbuild]⟩

/-- A rule for a pair of two, and one that asks for a pair of one. -/
def unevenClauses : List (String × Clause) :=
  [("core", ⟨"pair", .app "Pair" [.var ⟨1, "a"⟩, .var ⟨2, "b"⟩],
      [⟨.var ⟨1, "a"⟩, false⟩, ⟨.var ⟨2, "b"⟩, false⟩]⟩),
    ("core", ⟨"box", .app "Box" [.var ⟨3, "c"⟩], [⟨.app "Pair" [.var ⟨3, "c"⟩], true⟩]⟩)]

theorem uneven_refused : ∃ e, Catalog.build? unevenClauses = some (.error e) ∧
    e = ⟨"core::box", .arityConflict "Pair" 2 1⟩ ∧ ∃ before provider c after,
      unevenClauses = before ++ (provider, c) :: after ∧ WellFormed before ∧
      ¬WellFormed (before ++ [(provider, c)]) ∧ e.rule = qualifiedName provider c.name ∧
      e.reason.Holds before provider c := by
  have h : Catalog.build? unevenClauses =
      some (.error ⟨"core::box", .arityConflict "Pair" 2 1⟩) := rfl
  exact ⟨_, h, rfl, (build_exact unevenClauses).2.1 _ h⟩

namespace Catalog

variable {catalog : Catalog}

/-- Of the candidates of a goal as many match it as of all rules, and in the same order. -/
theorem Indexed.filter_candidates (h : catalog.Indexed) (goal : Term) :
    (catalog.candidates goal).filter (fun r => goal.fits r.head) =
      catalog.rules.filter fun r => goal.fits r.head := by
  rw [h.candidates_eq_filter, List.filter_filter]
  refine List.filter_congr fun r hr => ?_
  cases hf : goal.fits r.head with
  | false => rfl
  | true =>
    obtain ⟨ctor, args, hhead⟩ := h.heads r hr
    obtain ⟨s, hs⟩ := Term.fits_iff.mp hf
    rw [hhead] at hs
    rw [unify_ctor hs, hhead]
    simp [Term.ctor?]

end Catalog

/-- The index loses nothing. Rules are numbered in the order of registration, each constructor
lists the rules with it at the head, the arities are those of the applications in the rules, and
among the candidates of a goal are all the rules that it matches, in their order. -/
theorem index_exact {clauses : List (String × Clause)} {catalog : Catalog}
    (h : Catalog.build clauses = .ok catalog) :
    (catalog.rules = clauses.mapIdx fun id e => e.2.toRule id e.1) ∧
    (∀ i r, catalog.rules[i]? = some r → r.id = i ∧ catalog.rule? r.id = some r) ∧
    (∀ ctor, (catalog.idsOf ctor).Pairwise (· < ·) ∧ ∀ id, id ∈ catalog.idsOf ctor ↔
      ∃ r ∈ catalog.rules, r.id = id ∧ r.head.ctor? = some ctor) ∧
    (∀ ctor n, catalog.arity? ctor = some n ↔ ∃ r ∈ catalog.rules,
      r.head.Applies ctor n ∨ ∃ q ∈ r.body, q.pattern.Applies ctor n) ∧
    ∀ goal, (catalog.candidates goal).filter (fun r => goal.fits r.head) =
      catalog.rules.filter fun r => goal.fits r.head := by
  have hi := Catalog.build_indexed h
  have hr := registered_of_build h
  refine ⟨hr.rules, fun i r hir => ⟨hi.ids i r hir, hi.rule?_id (List.mem_of_getElem? hir)⟩,
    fun ctor => ⟨hi.idsOf_ascending ctor, fun id => hi.mem_idsOf⟩, fun ctor n => ?_,
    hi.filter_candidates⟩
  rw [hr.arity?_eq_some]
  constructor
  · rintro ⟨e, he, ha⟩
    obtain ⟨id, hid⟩ := List.mem_iff_getElem?.mp he
    exact ⟨_, hr.mem_rules.mpr ⟨id, e, hid, rfl⟩, ha⟩
  · rintro ⟨r, hmem, ha⟩
    obtain ⟨id, e, hid, rfl⟩ := hr.mem_rules.mp hmem
    exact ⟨e, List.mem_of_getElem? hid, ha⟩

/-- Rules of which only the first is for a goal without parts. -/
def evenClauses : List (String × Clause) :=
  [("core", ⟨"int", .const "Int", []⟩),
    ("core", ⟨"pair", .app "Pair" [.var ⟨1, "a"⟩, .var ⟨2, "b"⟩],
      [⟨.var ⟨1, "a"⟩, false⟩, ⟨.var ⟨2, "b"⟩, false⟩]⟩),
    ("extra", ⟨"twin", .app "Pair" [.var ⟨3, "c"⟩, .var ⟨3, "c"⟩],
      [⟨.app "Pair" [.const "Int", .var ⟨3, "c"⟩], true⟩]⟩)]

def evenCatalog : Catalog where
  rules := [⟨0, "core::int", .const "Int", []⟩,
    ⟨1, "core::pair", .app "Pair" [.var ⟨1, "a"⟩, .var ⟨2, "b"⟩],
      [⟨.var ⟨1, "a"⟩, false⟩, ⟨.var ⟨2, "b"⟩, false⟩]⟩,
    ⟨2, "extra::twin", .app "Pair" [.var ⟨3, "c"⟩, .var ⟨3, "c"⟩],
      [⟨.app "Pair" [.const "Int", .var ⟨3, "c"⟩], true⟩]⟩]
  index := [("Int", [0]), ("Pair", [1, 2])]
  arities := [("Int", 0), ("Pair", 2)]

theorem build_even : Catalog.build evenClauses = .ok evenCatalog :=
  rfl

theorem even_indexed : Catalog.build evenClauses = .ok evenCatalog ∧
    (∀ i r, evenCatalog.rules[i]? = some r → r.id = i ∧ evenCatalog.rule? r.id = some r) ∧
    (evenCatalog.idsOf "Pair" = [1, 2] ∧ ∀ id, id ∈ evenCatalog.idsOf "Pair" ↔
      ∃ r ∈ evenCatalog.rules, r.id = id ∧ r.head.ctor? = some "Pair") ∧
    (∀ n, evenCatalog.arity? "Pair" = some n ↔ ∃ r ∈ evenCatalog.rules,
      r.head.Applies "Pair" n ∨ ∃ q ∈ r.body, q.pattern.Applies "Pair" n) ∧
    ∀ goal, (evenCatalog.candidates goal).filter (fun r => goal.fits r.head) =
      evenCatalog.rules.filter fun r => goal.fits r.head := by
  obtain ⟨_, hids, hlisted, harity, hcandidates⟩ := index_exact build_even
  exact ⟨build_even, hids, ⟨rfl, (hlisted "Pair").2⟩, harity "Pair", hcandidates⟩

end Clausal
