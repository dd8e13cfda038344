import Clausal.Proofs.Assignments

namespace Clausal

/-- Positions compare as lists of numbers do. -/
theorem Position.compare_eq_compare (p q : Position) : Position.compare p q = Ord.compare p q := by
  induction p generalizing q with
  | nil => cases q <;> rfl
  | cons i p ih =>
    cases q with
    | nil => rfl
    | cons j q =>
      have hlists : Ord.compare (i :: p) (j :: q) = (Ord.compare i j).then (Ord.compare p q) :=
        List.compareLex_cons_cons
      rw [Position.compare, hlists, ← ih]
      cases Ord.compare i j <;> rfl

instance : Std.TransCmp Position.compare := by
  have h : Position.compare = Ord.compare := by
    funext p q
    exact Position.compare_eq_compare p q
  rw [h]
  infer_instance

instance : Std.LawfulEqCmp Position.compare := by
  have h : Position.compare = Ord.compare := by
    funext p q
    exact Position.compare_eq_compare p q
  rw [h]
  infer_instance

/-- A variable stands at a position, and nowhere before it. -/
def FirstAt (look : Position → Option Term) (v : Variable) (p : Position) : Prop :=
  look p = some (.var v) ∧ ∀ q, look q = some (.var v) → (Position.compare p q).isLE

/-- What the subject has at a position fits what the pattern has there, where `stands` tells what
the variables of the pattern stand for. -/
inductive FitsAt (subject pattern : Position → Option Term) (stands : Variable → Term → Prop)
    (p : Position) : Prop
  | app {c ts ps} : subject p = some (.app c ts) → pattern p = some (.app c ps) →
      ts.length = ps.length → FitsAt subject pattern stands p
  | var {v t} : subject p = some t → pattern p = some (.var v) → stands v t →
      FitsAt subject pattern stands p

/-- What is said to be wrong at a position is so: the subject and the pattern have different
constructors there, or one constructor with different numbers of arguments, or a variable stands
for something else than the part of the subject. -/
inductive Discrepancy.Holds (subject pattern : Position → Option Term)
    (stands : Variable → Term → Prop) (p : Position) : Discrepancy → Prop
  | constructor {c d ts ps} : subject p = some (.app c ts) → pattern p = some (.app d ps) →
      c ≠ d → Holds subject pattern stands p (.constructor d c)
  | arity {c ts ps} : subject p = some (.app c ts) → pattern p = some (.app c ps) →
      ts.length ≠ ps.length → Holds subject pattern stands p (.arity c ps.length ts.length)
  | conflict {v bound found} : subject p = some found → pattern p = some (.var v) →
      stands v bound → bound ≠ found → Holds subject pattern stands p (.conflict v bound found)

/-- At a position something is wrong, and at all positions of the pattern before it nothing is. -/
structure FirstMisfit (subject pattern : Position → Option Term) (stands : Variable → Term → Prop)
    (p : Position) (cause : Discrepancy) : Prop where
  holds : cause.Holds subject pattern stands p
  before : ∀ q u, pattern q = some u → Position.compare q p = .lt →
    FitsAt subject pattern stands q

/-- A variable of the pattern stands for what the goal has at the variable's first place. -/
def Term.FirstPart (goal pattern : Term) (v : Variable) (t : Term) : Prop :=
  ∃ p, FirstAt pattern.at? v p ∧ goal.at? p = some t

/-- What a walk that begins with some bindings takes a variable for: what it is bound to, or else
what the subject has at the variable's first place. -/
inductive Substitution.Stands (s : Substitution) (subject pattern : Position → Option Term)
    (v : Variable) (t : Term) : Prop
  | bound : s.get? v = some t → Stands s subject pattern v t
  | first {p} : s.get? v = none → FirstAt pattern v p → subject p = some t →
      Stands s subject pattern v t

section

variable {subject pattern subject' pattern' : Position → Option Term}
  {stands stands' : Variable → Term → Prop} {p q : Position} {v : Variable} {cause : Discrepancy}

theorem FirstAt.unique (hp : FirstAt pattern v p) (hq : FirstAt pattern v q) : p = q :=
  Std.LawfulEqCmp.eq_of_compare (Std.OrientedCmp.isLE_antisymm (hp.2 q hq.1) (hq.2 p hp.1))

theorem FitsAt.move (h : FitsAt subject pattern stands p) (hs : subject' q = subject p)
    (hp : pattern' q = pattern p) (hstands : ∀ v t, stands v t → stands' v t) :
    FitsAt subject' pattern' stands' q := by
  cases h with
  | app hsub hpat hlen => exact .app (hs.trans hsub) (hp.trans hpat) hlen
  | var hsub hpat hv => exact .var (hs.trans hsub) (hp.trans hpat) (hstands _ _ hv)

theorem Discrepancy.Holds.move (h : cause.Holds subject pattern stands p)
    (hs : subject' q = subject p) (hp : pattern' q = pattern p)
    (hstands : ∀ v t, stands v t → stands' v t) : cause.Holds subject' pattern' stands' q := by
  cases h with
  | constructor hsub hpat hne => exact .constructor (hs.trans hsub) (hp.trans hpat) hne
  | arity hsub hpat hne => exact .arity (hs.trans hsub) (hp.trans hpat) hne
  | conflict hsub hpat hv hne =>
    exact .conflict (hs.trans hsub) (hp.trans hpat) (hstands _ _ hv) hne

theorem Discrepancy.Holds.exists_at (h : cause.Holds subject pattern stands p) :
    ∃ t u, subject p = some t ∧ pattern p = some u := by
  cases h with
  | constructor hsub hpat _ => exact ⟨_, _, hsub, hpat⟩
  | arity hsub hpat _ => exact ⟨_, _, hsub, hpat⟩
  | conflict hsub hpat _ _ => exact ⟨_, _, hsub, hpat⟩

/-- Where something is wrong the subject does not fit. -/
theorem Discrepancy.Holds.not_fitsAt (h : cause.Holds subject pattern stands p)
    (hfun : ∀ v t u, stands v t → stands v u → t = u) : ¬FitsAt subject pattern stands p := by
  intro hfits
  cases h with
  | constructor hsub hpat hne =>
    cases hfits with
    | app hsub' hpat' _ =>
      cases hsub.symm.trans hsub'
      cases hpat.symm.trans hpat'
      exact hne rfl
    | var _ hpat' _ => cases hpat.symm.trans hpat'
  | arity hsub hpat hne =>
    cases hfits with
    | app hsub' hpat' hlen =>
      cases hsub.symm.trans hsub'
      cases hpat.symm.trans hpat'
      exact hne hlen
    | var _ hpat' _ => cases hpat.symm.trans hpat'
  | conflict hsub hpat hv hne =>
    cases hfits with
    | app _ hpat' _ => cases hpat.symm.trans hpat'
    | var hsub' hpat' hv' =>
      cases hsub.symm.trans hsub'
      cases hpat.symm.trans hpat'
      exact hne (hfun _ _ _ hv hv')

/-- Only one thing can be said to be wrong at a position. -/
theorem Discrepancy.Holds.unique {other : Discrepancy} (h : cause.Holds subject pattern stands p)
    (h' : other.Holds subject pattern stands p)
    (hfun : ∀ v t u, stands v t → stands v u → t = u) : cause = other := by
  cases h with
  | constructor hsub hpat hne =>
    cases h' with
    | constructor hsub' hpat' _ =>
      cases hsub.symm.trans hsub'
      cases hpat.symm.trans hpat'
      rfl
    | arity hsub' hpat' _ =>
      cases hsub.symm.trans hsub'
      cases hpat.symm.trans hpat'
      exact absurd rfl hne
    | conflict _ hpat' _ _ => cases hpat.symm.trans hpat'
  | arity hsub hpat hne =>
    cases h' with
    | constructor hsub' hpat' hne' =>
      cases hsub.symm.trans hsub'
      cases hpat.symm.trans hpat'
      exact absurd rfl hne'
    | arity hsub' hpat' _ =>
      cases hsub.symm.trans hsub'
      cases hpat.symm.trans hpat'
      rfl
    | conflict _ hpat' _ _ => cases hpat.symm.trans hpat'
  | conflict hsub hpat hv _ =>
    cases h' with
    | constructor _ hpat' _ => cases hpat.symm.trans hpat'
    | arity _ hpat' _ => cases hpat.symm.trans hpat'
    | conflict hsub' hpat' hv' _ =>
      cases hsub.symm.trans hsub'
      cases hpat.symm.trans hpat'
      rw [hfun _ _ _ hv hv']

theorem FirstMisfit.le {other : Discrepancy} (h : FirstMisfit subject pattern stands p cause)
    (h' : FirstMisfit subject pattern stands q other)
    (hfun : ∀ v t u, stands v t → stands v u → t = u) : (Position.compare q p).isLE := by
  cases hc : Position.compare q p with
  | lt => rfl
  | eq => rfl
  | gt =>
    obtain ⟨_, u, _, hu⟩ := h.holds.exists_at
    exact absurd (h'.before p u hu (Std.OrientedCmp.lt_of_gt hc)) (h.holds.not_fitsAt hfun)

/-- There is at most one first place at which something is wrong. -/
theorem FirstMisfit.unique {other : Discrepancy} (h : FirstMisfit subject pattern stands p cause)
    (h' : FirstMisfit subject pattern stands q other)
    (hfun : ∀ v t u, stands v t → stands v u → t = u) : p = q ∧ cause = other := by
  have hpq : p = q :=
    Std.LawfulEqCmp.eq_of_compare (Std.OrientedCmp.isLE_antisymm (h'.le h hfun) (h.le h' hfun))
  subst hpq
  exact ⟨rfl, h.holds.unique h'.holds hfun⟩

end

namespace Term

variable {t u : Term} {ts ps : List Term} {c : String} {v : Variable} {p q : Position}

theorem at?_under (h : t.at? p = some u) (σ : Variable → Term) :
    (t.under σ).at? p = some (u.under σ) := by
  induction t generalizing p with
  | var v =>
    cases p with
    | nil =>
      cases h
      cases σ v <;> rfl
    | cons i p => cases h
  | app c ts ih =>
    cases p with
    | nil =>
      cases h
      rfl
    | cons i p =>
      rw [at?_app_cons] at h
      obtain ⟨t, ht, hu⟩ := Option.bind_eq_some_iff.mp h
      rw [under, listUnder_eq_map, at?_app_cons, listAt?, List.getElem?_map, ht]
      exact ih t (List.mem_of_getElem? ht) hu

theorem at?_app_eq_var : (app c ts).at? p = some (.var v) ↔ listAt? ts p = some (.var v) := by
  cases p with
  | nil => simp [at?, listAt?]
  | cons i p => rw [at?_app_cons]

theorem firstAt_app : FirstAt (app c ts).at? v p ↔ FirstAt (listAt? ts) v p := by
  simp only [FirstAt, at?_app_eq_var]

/-- The first place in the first of several terms is the first in all of them. -/
theorem firstAt_head (h : FirstAt t.at? v p) : FirstAt (listAt? (t :: ts)) v (0 :: p) := by
  refine ⟨h.1, fun q hq => ?_⟩
  match q with
  | [] => cases hq
  | 0 :: q => exact h.2 q hq
  | (j + 1) :: q => rfl

/-- The first place in the other terms is the first in all of them, if the first term has none. -/
theorem firstAt_tail (hv : v ∉ t.occurrences) {i : Nat} (h : FirstAt (listAt? ts) v (i :: p)) :
    FirstAt (listAt? (t :: ts)) v ((i + 1) :: p) := by
  refine ⟨(listAt?_succ t ts i p).trans h.1, fun q hq => ?_⟩
  match q with
  | [] => cases hq
  | 0 :: q => exact absurd (mem_occurrences.mpr ⟨q, hq⟩) hv
  | (j + 1) :: q =>
    rw [listAt?_succ] at hq
    rw [compare_succ]
    exact h.2 _ hq

theorem exists_firstAt_list (ih : ∀ t ∈ ts, v ∈ t.occurrences → ∃ p, FirstAt t.at? v p)
    (hv : v ∈ listOccurrences ts) : ∃ p, FirstAt (listAt? ts) v p := by
  induction ts with
  | nil => cases hv
  | cons t ts ihs =>
    by_cases ht : v ∈ t.occurrences
    · obtain ⟨p, hp⟩ := ih t List.mem_cons_self ht
      exact ⟨0 :: p, firstAt_head hp⟩
    · have hrest : v ∈ listOccurrences ts := (List.mem_append.mp hv).resolve_left ht
      obtain ⟨p, hp⟩ := ihs (fun u hu => ih u (List.mem_cons_of_mem t hu)) hrest
      match p with
      | [] => cases hp.1
      | i :: p => exact ⟨(i + 1) :: p, firstAt_tail ht hp⟩

/-- A variable that occurs has a first place. -/
theorem exists_firstAt (h : v ∈ t.occurrences) : ∃ p, FirstAt t.at? v p := by
  induction t with
  | var w =>
    have hw : v = w := List.mem_singleton.mp h
    subst hw
    refine ⟨[], rfl, fun q _ => ?_⟩
    cases q <;> rfl
  | app c ts ih =>
    obtain ⟨p, hp⟩ := exists_firstAt_list ih h
    exact ⟨p, firstAt_app.mpr hp⟩

end Term

namespace Substitution

variable {s s₁ s' : Substitution} {t u p : Term} {ts ps : List Term} {v : Variable} {c d : String}

/-- After a match the bindings tell what the walk took the variables of the pattern for. -/
theorem stands_value (ha : Variable.Ascending s.domain) (h : s.extend t p = .ok s')
    (hv : v ∈ p.occurrences) : s.Stands t.at? p.at? v (s'.value v) := by
  obtain ⟨hgrows, ht⟩ := extend_sound p ha h
  by_cases hd : v ∈ s.domain
  · rw [hgrows.keeps v hd]
    exact .bound (get?_eq_some hd)
  · have hnone : s.get? v = none := get?_eq_none_iff.mpr hd
    obtain ⟨q, hq⟩ := Term.exists_firstAt hv
    have hpart : t.at? q = some (s'.value v) := by
      rw [← ht]
      exact Term.at?_under hq.1 s'.value
    exact .first hnone hq hpart

/-- A subject that matches fits everywhere. -/
theorem fitsAt_of_extend (ha : Variable.Ascending s.domain) (h : s.extend t p = .ok s')
    {q : Position} (hq : p.at? q = some u) : FitsAt t.at? p.at? (s.Stands t.at? p.at?) q := by
  obtain ⟨_, ht⟩ := extend_sound p ha h
  have hpart : t.at? q = some (u.under s'.value) := by
    rw [← ht]
    exact Term.at?_under hq s'.value
  cases u with
  | var v =>
    have hv : v ∈ p.occurrences := Term.mem_occurrences.mpr ⟨q, hq⟩
    exact .var hpart hq (stands_value ha h hv)
  | app c us =>
    rw [Term.under, Term.listUnder_eq_map] at hpart
    exact .app hpart hq (List.length_map _)

theorem Stands.app (h : s.Stands (Term.listAt? ts) (Term.listAt? ps) v u) :
    s.Stands (Term.app c ts).at? (Term.app d ps).at? v u := by
  cases h with
  | bound hv => exact .bound hv
  | @first q hnone hq hu =>
    match q with
    | [] => cases hu
    | i :: q => exact .first hnone (Term.firstAt_app.mpr hq) ((Term.at?_app_cons c ts i q).trans hu)

theorem Stands.head (h : s.Stands t.at? p.at? v u) :
    s.Stands (Term.listAt? (t :: ts)) (Term.listAt? (p :: ps)) v u := by
  cases h with
  | bound hv => exact .bound hv
  | first hnone hq hu => exact .first hnone (Term.firstAt_head hq) hu

/-- What the variables stand for in the walk through the other terms, they stand for in the whole
walk. -/
theorem Stands.tail (ha : Variable.Ascending s.domain) (h₁ : s.extend t p = .ok s₁)
    (h : s₁.Stands (Term.listAt? ts) (Term.listAt? ps) v u) :
    s.Stands (Term.listAt? (t :: ts)) (Term.listAt? (p :: ps)) v u := by
  obtain ⟨hgrows, _⟩ := extend_sound p ha h₁
  have hdomain : v ∈ s₁.domain ↔ v ∈ s.domain ∨ v ∈ p.occurrences := by
    rw [hgrows.domain]
    exact Variable.mem_insertAll
  cases h with
  | bound hv =>
    have hvalue : s₁.value v = u := value_of_get? hv
    by_cases hp : v ∈ p.occurrences
    · exact hvalue ▸ (stands_value ha h₁ hp).head
    · have hd : v ∈ s.domain := (hdomain.mp (mem_domain_of_get? hv)).resolve_right hp
      rw [← hvalue, hgrows.keeps v hd]
      exact .bound (get?_eq_some hd)
  | @first q hnone hq hu =>
    have hnot : v ∉ s₁.domain := get?_eq_none_iff.mp hnone
    rw [hdomain, not_or] at hnot
    have hnone' : s.get? v = none := get?_eq_none_iff.mpr hnot.1
    match q with
    | [] => cases hu
    | i :: q =>
      exact .first hnone' (Term.firstAt_tail hnot.2 hq) ((Term.listAt?_succ t ts i q).trans hu)

/-- A misfit in the first of several terms is the first in all of them. -/
theorem misfit_head {q : Position} {cause : Discrepancy}
    (h : FirstMisfit t.at? p.at? (s.Stands t.at? p.at?) q cause) :
    FirstMisfit (Term.listAt? (t :: ts)) (Term.listAt? (p :: ps))
      (s.Stands (Term.listAt? (t :: ts)) (Term.listAt? (p :: ps))) (0 :: q) cause where
  holds := h.holds.move rfl rfl fun _ _ => Stands.head
  before r u hu hlt := by
    match r with
    | [] => cases hu
    | 0 :: r => exact (h.before r u hu hlt).move rfl rfl fun _ _ => Stands.head
    | (j + 1) :: r => cases hlt

/-- A misfit in the other terms is the first in all of them, if the first term matches. -/
theorem misfit_tail (ha : Variable.Ascending s.domain) (h₁ : s.extend t p = .ok s₁) {i : Nat}
    {q : Position} {cause : Discrepancy}
    (h : FirstMisfit (Term.listAt? ts) (Term.listAt? ps)
      (s₁.Stands (Term.listAt? ts) (Term.listAt? ps)) (i :: q) cause) :
    FirstMisfit (Term.listAt? (t :: ts)) (Term.listAt? (p :: ps))
      (s.Stands (Term.listAt? (t :: ts)) (Term.listAt? (p :: ps))) ((i + 1) :: q) cause where
  holds := h.holds.move (Term.listAt?_succ t ts i q) (Term.listAt?_succ p ps i q)
    fun _ _ => Stands.tail ha h₁
  before r u hu hlt := by
    match r with
    | [] => cases hu
    | 0 :: r => exact (fitsAt_of_extend ha h₁ hu).move rfl rfl fun _ _ => Stands.head
    | (j + 1) :: r =>
      rw [Term.listAt?_succ] at hu
      rw [Term.compare_succ] at hlt
      exact (h.before _ u hu hlt).move (Term.listAt?_succ t ts j r) (Term.listAt?_succ p ps j r)
        fun _ _ => Stands.tail ha h₁

theorem misfit_app (hlen : ts.length = ps.length) {i : Nat} {q : Position} {cause : Discrepancy}
    (h : FirstMisfit (Term.listAt? ts) (Term.listAt? ps)
      (s.Stands (Term.listAt? ts) (Term.listAt? ps)) (i :: q) cause) :
    FirstMisfit (Term.app c ts).at? (Term.app c ps).at?
      (s.Stands (Term.app c ts).at? (Term.app c ps).at?) (i :: q) cause where
  holds := h.holds.move (Term.at?_app_cons c ts i q) (Term.at?_app_cons c ps i q)
    fun _ _ => Stands.app
  before r u hu hlt := by
    match r with
    | [] => exact .app rfl rfl hlen
    | j :: r =>
      rw [Term.at?_app_cons] at hu
      exact (h.before _ u hu hlt).move (Term.at?_app_cons c ts j r) (Term.at?_app_cons c ps j r)
        fun _ _ => Stands.app

/-- What is wrong at the outermost position is found first. -/
theorem misfit_root {cause : Discrepancy} {stands : Variable → Term → Prop}
    (h : cause.Holds t.at? p.at? stands []) : FirstMisfit t.at? p.at? stands [] cause where
  holds := h
  before r u hu hlt := by cases r <;> cases hlt

mutual

/-- A ground subject that does not match is refused for the first misfit of the walk. -/
theorem misfit_of_extend : (p : Term) → ∀ {s : Substitution} {t : Term} {m : Mismatch},
    Variable.Ascending s.domain → t.isGround = true → s.extend t p = .error m →
      FirstMisfit t.at? p.at? (s.Stands t.at? p.at?) m.position m.cause
  | .var v, s, t, m, ha, hg, h => by
    unfold extend at h
    cases hv : s.get? v with
    | none => simp [hv] at h
    | some u =>
      rw [hv] at h
      dsimp only at h
      split at h
      · cases h
      next hne =>
        cases h
        have hroot : t.at? [] = some t := by cases t <;> rfl
        exact misfit_root (.conflict hroot rfl (.bound hv) hne)
  | .app d ps, s, t, m, ha, hg, h => by
    cases t with
    | var w => cases hg
    | app c ts =>
      unfold extend at h
      split at h
      next hc =>
        cases h
        exact misfit_root (.constructor rfl rfl hc)
      next hc =>
        have hc : c = d := Decidable.of_not_not hc
        subst hc
        split at h
        next hl =>
          cases h
          exact misfit_root (.arity rfl rfl hl)
        next hl =>
          have hl : ts.length = ps.length := Decidable.of_not_not hl
          obtain ⟨j, q, hq, hfirst⟩ := misfit_of_extendList ps 0 ha hg hl h
          rw [hq, Nat.zero_add]
          exact misfit_app hl hfirst

theorem misfit_of_extendList : (ps : List Term) → ∀ (i : Nat) {s : Substitution} {ts : List Term}
    {m : Mismatch}, Variable.Ascending s.domain → Term.allGround ts = true →
      ts.length = ps.length → s.extendList i ts ps = .error m →
        ∃ j q, m.position = (i + j) :: q ∧ FirstMisfit (Term.listAt? ts) (Term.listAt? ps)
          (s.Stands (Term.listAt? ts) (Term.listAt? ps)) (j :: q) m.cause
  | [], i, s, ts, m, ha, hg, hl, h => by
    unfold extendList at h
    cases ts <;> cases h
  | p :: ps, i, s, ts, m, ha, hg, hl, h => by
    cases ts with
    | nil => cases hl
    | cons t ts =>
      rw [Term.allGround, Bool.and_eq_true] at hg
      unfold extendList at h
      split at h
      next m' hm =>
        cases h
        exact ⟨0, m'.position, rfl, misfit_head (misfit_of_extend p ha hg.1 hm)⟩
      next s₁ h₁ =>
        have ha₁ := (extend_sound p ha h₁).1.ascending ha
        have hlen : ts.length = ps.length := Nat.succ.inj hl
        obtain ⟨j, q, hq, hfirst⟩ := misfit_of_extendList ps (i + 1) ha₁ hg.2 hlen h
        have hindex : i + 1 + j = i + (j + 1) := by omega
        exact ⟨j + 1, q, hindex ▸ hq, misfit_tail ha h₁ hfirst⟩

end

end Substitution

section

variable {goal pattern : Term} {m : Mismatch}

/-- A walk that begins without bindings takes a variable for the part at its first place. -/
theorem Substitution.stands_empty {v : Variable} {t : Term} :
    Substitution.empty.Stands goal.at? pattern.at? v t ↔ goal.FirstPart pattern v t := by
  constructor
  · intro h
    cases h with
    | bound hv => cases hv
    | first _ hp ht => exact ⟨_, hp, ht⟩
  · intro ⟨p, hp, ht⟩
    exact .first rfl hp ht

theorem Term.FirstPart.unique {v : Variable} {t u : Term} (ht : goal.FirstPart pattern v t)
    (hu : goal.FirstPart pattern v u) : t = u := by
  obtain ⟨p, hp, ht⟩ := ht
  obtain ⟨q, hq, hu⟩ := hu
  have hpq := hp.unique hq
  subst hpq
  exact Option.some.inj (ht.symm.trans hu)

/-- The mismatch is the first one in the pattern, read from the outside in and from left to right.
Every position before it fits, and at the position itself there is what the cause says. -/
def FirstMismatch (goal pattern : Term) (m : Mismatch) : Prop :=
  FirstMisfit goal.at? pattern.at? (goal.FirstPart pattern) m.position m.cause

theorem FirstMismatch.unique {m' : Mismatch} (h : FirstMismatch goal pattern m)
    (h' : FirstMismatch goal pattern m') : m = m' := by
  obtain ⟨p, cause⟩ := m
  obtain ⟨p', cause'⟩ := m'
  obtain ⟨hp, hcause⟩ := FirstMisfit.unique h h' fun _ _ _ => Term.FirstPart.unique
  dsimp only at hp hcause
  rw [hp, hcause]

theorem firstMismatch_of_unify (hg : goal.isGround = true)
    (h : unify goal pattern = .error m) : FirstMismatch goal pattern m := by
  have hempty : Variable.Ascending Substitution.empty.domain := List.Pairwise.nil
  rw [unify, if_pos hg] at h
  have hfirst := Substitution.misfit_of_extend pattern hempty hg h
  exact ⟨hfirst.holds.move rfl rfl fun _ _ => Substitution.stands_empty.mp,
    fun q u hu hlt => (hfirst.before q u hu hlt).move rfl rfl
      fun _ _ => Substitution.stands_empty.mp⟩

/-- A goal with a mismatch somewhere does not match. -/
theorem FirstMismatch.not_unify (h : FirstMismatch goal pattern m) (s : Substitution) :
    unify goal pattern ≠ .ok s := by
  intro hs
  have hempty : Variable.Ascending Substitution.empty.domain := List.Pairwise.nil
  obtain ⟨_, u, _, hu⟩ := h.holds.exists_at
  have hfits := Substitution.fitsAt_of_extend hempty (unify_eq_ok_iff.mp hs).2 hu
  exact h.holds.not_fitsAt (fun _ _ _ => Term.FirstPart.unique)
    (hfits.move rfl rfl fun _ _ => Substitution.stands_empty.mp)

end

/-- Matching reports the first mismatch. A goal that is not ground is refused as such at the root,
whatever the pattern. For a ground goal the mismatch is one at a position that both terms have,
where there is what its cause says, while all earlier positions of the pattern fit; and whenever
there is such a mismatch it is the one reported. -/
theorem mismatch_exact (goal pattern : Term) :
    (goal.isGround = false → unify goal pattern = .error ⟨[], .notGround⟩) ∧
    (goal.isGround = true → ∀ m, unify goal pattern = .error m ↔
      (∃ t u, goal.at? m.position = some t ∧ pattern.at? m.position = some u) ∧
      m.cause.Holds goal.at? pattern.at? (goal.FirstPart pattern) m.position ∧
      ∀ q u, pattern.at? q = some u → Position.compare q m.position = .lt →
        FitsAt goal.at? pattern.at? (goal.FirstPart pattern) q) := by
  refine ⟨fun hg => by simp [unify, hg], fun hg m => ⟨fun h => ?_, fun ⟨_, hcause, hbefore⟩ => ?_⟩⟩
  · have hfirst := firstMismatch_of_unify hg h
    exact ⟨hfirst.holds.exists_at, hfirst.holds, hfirst.before⟩
  · have hfirst : FirstMismatch goal pattern m := ⟨hcause, hbefore⟩
    cases hu : unify goal pattern with
    | ok s => exact absurd hu (hfirst.not_unify s)
    | error m' => rw [hfirst.unique (firstMismatch_of_unify hg hu)]

/-- A pattern with a variable that comes again far below its first place. -/
def echoPattern : Term :=
  .app "Pair" [.var ⟨1, "a"⟩, .app "Pair" [.var ⟨2, "b"⟩, .app "List" [.var ⟨1, "a"⟩]]]

def echoGoal : Term :=
  .app "Pair" [.const "Int", .app "Pair" [.const "Bool", .app "List" [.const "Bool"]]]

theorem echo_mismatch :
    unify echoGoal echoPattern =
      .error ⟨[1, 1, 0], .conflict ⟨1, "a"⟩ (.const "Int") (.const "Bool")⟩ ∧
    echoGoal.FirstPart echoPattern ⟨1, "a"⟩ (.const "Int") ∧
    FitsAt echoGoal.at? echoPattern.at? (echoGoal.FirstPart echoPattern) [1, 0] ∧
    unify (.app "List" [.var ⟨3, "c"⟩]) echoPattern = .error ⟨[], .notGround⟩ := by
  have hunify : unify echoGoal echoPattern =
      .error ⟨[1, 1, 0], .conflict ⟨1, "a"⟩ (.const "Int") (.const "Bool")⟩ := rfl
  obtain ⟨_, hcause, hbefore⟩ := ((mismatch_exact echoGoal echoPattern).2 (by decide) _).mp hunify
  refine ⟨hunify, ?_, hbefore [1, 0] (.var ⟨2, "b"⟩) rfl rfl,
    (mismatch_exact (.app "List" [.var ⟨3, "c"⟩]) echoPattern).1 (by decide)⟩
  cases hcause with
  | conflict _ _ hbound _ => exact hbound

end Clausal
