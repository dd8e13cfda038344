import Clausal.Catalog

namespace Clausal

instance : Std.TransCmp Variable.compare :=
  inferInstanceAs (Std.TransCmp (compareLex (compareOn Variable.index) (compareOn Variable.name)))

namespace Variable

variable {v w x : Variable} {vs ws : List Variable}

theorem compare_eq_iff : v.compare w = .eq ↔ v = w := by
  obtain ⟨i, a⟩ := v
  obtain ⟨j, b⟩ := w
  simp [compare, Ordering.then_eq_eq]

/-- The variables stand in their order, each of them once. -/
def Ascending (vs : List Variable) : Prop :=
  vs.Pairwise fun v w => v.compare w = .lt

theorem Ascending.nodup (h : Ascending vs) : vs.Nodup := by
  refine h.imp fun {v w} hlt he => ?_
  rw [compare_eq_iff.mpr he] at hlt
  cases hlt

theorem mem_insert : x ∈ v.insert vs ↔ x = v ∨ x ∈ vs := by
  induction vs with
  | nil => simp [insert]
  | cons w ws ih =>
    cases hc : v.compare w with
    | lt => simp [insert, hc]
    | eq =>
      obtain rfl := compare_eq_iff.mp hc
      simp [insert, hc]
    | gt =>
      simp only [insert, hc, List.mem_cons, ih]
      exact or_left_comm

theorem Ascending.insert (h : Ascending vs) (v : Variable) : Ascending (v.insert vs) := by
  induction vs with
  | nil => exact List.pairwise_singleton _ v
  | cons w ws ih =>
    obtain ⟨hw, hws⟩ := List.pairwise_cons.mp h
    cases hc : v.compare w with
    | lt =>
      simp only [Variable.insert, hc]
      refine List.pairwise_cons.mpr ⟨fun x hx => ?_, h⟩
      rcases List.mem_cons.mp hx with rfl | hx
      · exact hc
      · exact Std.TransCmp.lt_trans hc (hw x hx)
    | eq =>
      simp only [Variable.insert, hc]
      exact h
    | gt =>
      simp only [Variable.insert, hc]
      refine List.pairwise_cons.mpr ⟨fun x hx => ?_, ih hws⟩
      rcases mem_insert.mp hx with rfl | hx
      · exact Std.OrientedCmp.gt_iff_lt.mp hc
      · exact hw x hx

/-- A variable that is there already is not added. -/
theorem Ascending.insert_of_mem (h : Ascending vs) (hv : v ∈ vs) : v.insert vs = vs := by
  induction vs with
  | nil => cases hv
  | cons w ws ih =>
    obtain ⟨hw, hws⟩ := List.pairwise_cons.mp h
    rcases List.mem_cons.mp hv with rfl | hv
    · simp [Variable.insert, compare_eq_iff.mpr rfl]
    · have hc : v.compare w = .gt := Std.OrientedCmp.gt_iff_lt.mpr (hw v hv)
      simp [Variable.insert, hc, ih hws hv]

/-- Adds variables one after the other. -/
def insertAll (vs ws : List Variable) : List Variable :=
  ws.foldl (fun vs v => v.insert vs) vs

theorem insertAll_append (vs ws xs : List Variable) :
    insertAll vs (ws ++ xs) = insertAll (insertAll vs ws) xs :=
  List.foldl_append

theorem mem_insertAll : x ∈ insertAll vs ws ↔ x ∈ vs ∨ x ∈ ws := by
  induction ws generalizing vs with
  | nil => simp [insertAll]
  | cons w ws ih =>
    have hstep : insertAll vs (w :: ws) = insertAll (w.insert vs) ws := rfl
    rw [hstep, ih, mem_insert, List.mem_cons, or_assoc]
    exact or_left_comm

theorem Ascending.insertAll (h : Ascending vs) (ws : List Variable) :
    Ascending (Variable.insertAll vs ws) := by
  induction ws generalizing vs with
  | nil => exact h
  | cons w ws ih => exact ih (h.insert w)

end Variable

theorem Term.mem_vars {t : Term} {v : Variable} : v ∈ t.vars ↔ v ∈ t.occurrences := by
  have h : v ∈ t.vars ↔ v ∈ [] ∨ v ∈ t.occurrences := Variable.mem_insertAll
  simpa using h

theorem Term.vars_ascending (t : Term) : Variable.Ascending t.vars :=
  Variable.Ascending.insertAll List.Pairwise.nil t.occurrences

theorem Clause.mem_bodyVars {c : Clause} {v : Variable} :
    v ∈ c.bodyVars ↔ ∃ r ∈ c.body, v ∈ r.pattern.occurrences := by
  have h : v ∈ c.bodyVars ↔ v ∈ [] ∨ v ∈ c.body.flatMap fun r => r.pattern.occurrences :=
    Variable.mem_insertAll
  simpa using h

end Clausal
