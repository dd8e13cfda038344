import Clausal.Position

namespace Clausal

namespace Term

@[induction_eliminator]
theorem induction {P : Term → Prop} (var : ∀ v, P (.var v))
    (app : ∀ c ts, (∀ t ∈ ts, P t) → P (.app c ts)) (t : Term) : P t :=
  t.rec (motive_2 := fun ts => ∀ t ∈ ts, P t) var app (by simp)
    fun _ _ h hs => List.forall_mem_cons.mpr ⟨h, hs⟩

/-- One term is a sub-term of another. -/
def Contains (t u : Term) : Prop :=
  ∃ p, t.at? p = some u

/-- A constructor is applied to `n` arguments somewhere in a term. -/
def Applies (t : Term) (ctor : String) (n : Nat) : Prop :=
  ∃ args, t.Contains (.app ctor args) ∧ args.length = n

/-- The sub-term at a position in a list of terms; the first index tells in which of them it is. -/
def listAt? (ts : List Term) : Position → Option Term
  | [] => none
  | i :: p => ts[i]?.bind fun t => t.at? p

variable {t u : Term} {ts : List Term} {c ctor : String} {v : Variable} {n : Nat}

theorem contains_self (t : Term) : t.Contains t :=
  ⟨[], by cases t <;> rfl⟩

theorem contains_var : (var v).Contains u ↔ u = var v := by
  constructor
  · rintro ⟨p, hp⟩
    cases p with
    | nil => exact (Option.some.inj hp).symm
    | cons i p => cases hp
  · rintro rfl
    exact contains_self _

theorem at?_app_cons (c : String) (ts : List Term) (i : Nat) (p : Position) :
    (app c ts).at? (i :: p) = listAt? ts (i :: p) := by
  rw [at?, listAt?]
  cases ts[i]? <;> rfl

theorem contains_app : (app c ts).Contains u ↔ u = app c ts ∨ ∃ t ∈ ts, t.Contains u := by
  constructor
  · rintro ⟨p, hp⟩
    cases p with
    | nil => exact .inl (Option.some.inj hp).symm
    | cons i p =>
      rw [at?_app_cons] at hp
      obtain ⟨t, ht, hu⟩ := Option.bind_eq_some_iff.mp hp
      exact .inr ⟨t, List.mem_of_getElem? ht, p, hu⟩
  · rintro (rfl | ⟨t, ht, p, hu⟩)
    · exact contains_self _
    · obtain ⟨i, hi⟩ := List.mem_iff_getElem?.mp ht
      exact ⟨i :: p, by rw [at?_app_cons, listAt?, hi, Option.bind_some, hu]⟩

theorem Contains.trans {w : Term} (h : t.Contains u) (h' : u.Contains w) : t.Contains w := by
  induction t with
  | var v =>
    obtain rfl := contains_var.mp h
    exact h'
  | app c ts ih =>
    rcases contains_app.mp h with rfl | ⟨t, ht, hu⟩
    · exact h'
    · exact contains_app.mpr (.inr ⟨t, ht, ih t ht hu⟩)

theorem mem_listOccurrences : v ∈ listOccurrences ts ↔ ∃ t ∈ ts, v ∈ t.occurrences := by
  induction ts with
  | nil => simp [listOccurrences]
  | cons t ts ih => simp [listOccurrences, ih]

/-- The occurrences of variables are the sub-terms that are variables. -/
theorem mem_occurrences : v ∈ t.occurrences ↔ t.Contains (.var v) := by
  induction t with
  | var w => simp [occurrences, contains_var]
  | app c ts ih =>
    rw [occurrences, mem_listOccurrences, contains_app]
    constructor
    · rintro ⟨t, ht, hv⟩
      exact .inr ⟨t, ht, (ih t ht).mp hv⟩
    · rintro (h | ⟨t, ht, hv⟩)
      · cases h
      · exact ⟨t, ht, (ih t ht).mpr hv⟩

theorem allGround_iff : allGround ts = true ↔ ∀ t ∈ ts, t.isGround = true := by
  induction ts with
  | nil => simp [allGround]
  | cons t ts ih => simp [allGround, ih]

theorem isGround_iff : t.isGround = true ↔ ∀ v, ¬t.Contains (.var v) := by
  induction t with
  | var w =>
    constructor
    · intro h
      cases h
    · intro h
      exact absurd (contains_self _) (h w)
  | app c ts ih =>
    rw [isGround, allGround_iff]
    constructor
    · intro h v hv
      rcases contains_app.mp hv with he | ⟨t, ht, hv⟩
      · cases he
      · exact (ih t ht).mp (h t ht) v hv
    · intro h t ht
      exact (ih t ht).mpr fun v hv => h v (contains_app.mpr (.inr ⟨t, ht, hv⟩))

theorem Contains.isGround (h : t.Contains u) (ht : t.isGround = true) : u.isGround = true :=
  isGround_iff.mpr fun v hv => isGround_iff.mp ht v (h.trans hv)

theorem listApplications_eq (ts : List Term) : listApplications ts = ts.flatMap applications := by
  induction ts with
  | nil => rfl
  | cons t ts ih => simp [listApplications, ih]

/-- The applications of a term are its sub-terms that are applications. -/
theorem mem_applications : (ctor, n) ∈ t.applications ↔ t.Applies ctor n := by
  induction t with
  | var w => simp [applications, Applies, contains_var]
  | app c ts ih =>
    rw [applications, List.mem_cons, listApplications_eq, List.mem_flatMap]
    constructor
    · rintro (h | ⟨t, ht, h⟩)
      · cases h
        exact ⟨ts, contains_self _, rfl⟩
      · obtain ⟨args, hargs, hn⟩ := (ih t ht).mp h
        exact ⟨args, contains_app.mpr (.inr ⟨t, ht, hargs⟩), hn⟩
    · rintro ⟨args, hargs, rfl⟩
      rcases contains_app.mp hargs with he | ⟨t, ht, hargs⟩
      · cases he
        exact .inl rfl
      · exact .inr ⟨t, ht, (ih t ht).mpr ⟨args, hargs, rfl⟩⟩

/-- Of the places where a constructor is applied, the first in reading order, from the outside in
and from left to right, has `n` arguments. -/
def FirstApplies (look : Position → Option Term) (ctor : String) (n : Nat) : Prop :=
  ∃ p args, look p = some (.app ctor args) ∧ args.length = n ∧
    ∀ q args', look q = some (.app ctor args') → (Position.compare p q).isLE

theorem listAt?_succ (t : Term) (ts : List Term) (i : Nat) (p : Position) :
    listAt? (t :: ts) ((i + 1) :: p) = listAt? ts (i :: p) := by
  simp [listAt?]

theorem compare_succ (i j : Nat) (p q : Position) :
    Position.compare ((i + 1) :: p) ((j + 1) :: q) = Position.compare (i :: p) (j :: q) := by
  have h : Ord.compare (i + 1) (j + 1) = Ord.compare i j := by
    simp only [Nat.compare_eq_ite_lt, Nat.add_lt_add_iff_right]
  simp only [Position.compare, h]

/-- In a list of terms of which each lists a constructor first where it applies it first, so does
the list. -/
theorem firstApplies_list (h : ∀ t ∈ ts, ∀ n, t.applications.lookup ctor = some n →
    FirstApplies t.at? ctor n) (hn : (ts.flatMap applications).lookup ctor = some n) :
    FirstApplies (listAt? ts) ctor n := by
  induction ts with
  | nil => cases hn
  | cons t ts ih =>
    rw [List.flatMap_cons, List.lookup_append] at hn
    cases hl : t.applications.lookup ctor with
    | some m =>
      rw [hl] at hn
      cases hn
      obtain ⟨p, args, hp, hlen, hfirst⟩ := h t List.mem_cons_self n hl
      refine ⟨0 :: p, args, hp, hlen, fun q args' hq => ?_⟩
      match q with
      | [] => cases hq
      | 0 :: q => exact hfirst q args' hq
      | (j + 1) :: q => rfl
    | none =>
      rw [hl, Option.none_or] at hn
      obtain ⟨p, args, hp, hlen, hfirst⟩ := ih (fun u hu => h u (List.mem_cons_of_mem t hu)) hn
      match p with
      | [] => cases hp
      | i :: p =>
        refine ⟨(i + 1) :: p, args, by rw [listAt?_succ, hp], hlen, fun q args' hq => ?_⟩
        match q with
        | [] => cases hq
        | 0 :: q =>
          have hmem : (ctor, args'.length) ∈ t.applications :=
            mem_applications.mpr ⟨args', ⟨q, hq⟩, rfl⟩
          have hne := List.lookup_eq_none_iff.mp hl _ hmem
          simp at hne
        | (j + 1) :: q =>
          rw [listAt?_succ] at hq
          rw [compare_succ]
          exact hfirst _ args' hq

theorem firstApplies_of_lookup (t : Term) : ∀ n, t.applications.lookup ctor = some n →
    FirstApplies t.at? ctor n := by
  induction t with
  | var v =>
    intro n hn
    cases hn
  | app c ts ih =>
    intro n hn
    rw [applications, listApplications_eq, List.lookup_cons] at hn
    by_cases hc : ctor = c
    · subst hc
      rw [beq_self_eq_true] at hn
      cases hn
      refine ⟨[], ts, rfl, rfl, fun q args' _ => ?_⟩
      cases q <;> rfl
    · rw [beq_eq_false_iff_ne.mpr hc] at hn
      obtain ⟨p, args, hp, hlen, hfirst⟩ := firstApplies_list ih hn
      match p with
      | [] => cases hp
      | i :: p =>
        refine ⟨i :: p, args, by rw [at?_app_cons, hp], hlen, fun q args' hq => ?_⟩
        match q with
        | [] =>
          cases hq
          exact absurd rfl hc
        | j :: q =>
          rw [at?_app_cons] at hq
          exact hfirst _ args' hq

end Term

end Clausal
