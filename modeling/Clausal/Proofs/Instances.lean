import Clausal.Proofs.Assignments
import Mathlib.Data.Set.Function

namespace Clausal

namespace Term

/-- Some replacement of the variables of `general` gives `specific`, whose own variables stand for
themselves. -/
def InstanceOf (specific general : Term) : Prop :=
  ∃ σ, general.under σ = specific

/-- Two terms differ only by a one-to-one renaming of the variables of the second. -/
def VariantOf (s t : Term) : Prop :=
  ∃ ρ : Variable → Variable,
    Set.BijOn ρ {v | v ∈ t.vars} {v | v ∈ s.vars} ∧ t.under (fun v => .var (ρ v)) = s

variable {r s t goal : Term} {σ τ : Variable → Term} {v w : Variable}

/-- One replacement after the other is a replacement. -/
theorem under_under (t : Term) (σ τ : Variable → Term) :
    (t.under σ).under τ = t.under fun v => (σ v).under τ := by
  induction t with
  | var v => rfl
  | app c ts ih =>
    simp only [under, listUnder_eq_map, List.map_map, app.injEq, true_and]
    exact List.map_congr_left ih

/-- The variables after a replacement are those of what the variables are replaced by. -/
theorem mem_occurrences_under :
    w ∈ (t.under σ).occurrences ↔ ∃ v ∈ t.occurrences, w ∈ (σ v).occurrences := by
  induction t with
  | var v => simp [under, occurrences]
  | app c ts ih =>
    simp only [under, listUnder_eq_map, occurrences, mem_listOccurrences]
    constructor
    · rintro ⟨u, hu, hw⟩
      obtain ⟨t, ht, he⟩ := List.mem_map.mp hu
      rw [← he] at hw
      obtain ⟨v, hv, hw⟩ := (ih t ht).mp hw
      exact ⟨v, ⟨t, ht, hv⟩, hw⟩
    · rintro ⟨v, ⟨t, ht, hv⟩, hw⟩
      exact ⟨t.under σ, List.mem_map_of_mem ht, (ih t ht).mpr ⟨v, hv, hw⟩⟩

/-- The test for instances finds a replacement exactly when there is one. Variables that both terms
have do no harm, since the bindings are never applied to themselves. -/
theorem isInstanceOf_iff : s.isInstanceOf t = true ↔ s.InstanceOf t := by
  have hempty : Variable.Ascending Substitution.empty.domain := List.Pairwise.nil
  unfold isInstanceOf
  constructor
  · intro h
    cases hs : Substitution.empty.extend s t with
    | error m => simp [hs] at h
    | ok s' => exact ⟨s'.value, (Substitution.extend_sound t hempty hs).2⟩
  · intro ⟨σ, hσ⟩
    have hagrees : Substitution.empty.Agrees σ := fun v u h => nomatch h
    obtain ⟨s', hs', _⟩ := Substitution.extend_complete t hagrees
    rw [← hσ, hs']

theorem InstanceOf.refl (t : Term) : t.InstanceOf t :=
  ⟨.var, t.under_var⟩

theorem InstanceOf.trans (h : r.InstanceOf s) (h' : s.InstanceOf t) : r.InstanceOf t := by
  obtain ⟨τ, hτ⟩ := h
  obtain ⟨σ, hσ⟩ := h'
  have hcomposed : t.under (fun v => (σ v).under τ) = r := by
    rw [← under_under, hσ, hτ]
  exact ⟨_, hcomposed⟩

/-- A goal matches a pattern when it is ground and an instance of it. -/
theorem fits_iff_instanceOf : goal.fits t = true ↔ goal.isGround = true ∧ goal.InstanceOf t := by
  rw [fits_iff, exists_unify_iff]
  rfl

theorem InstanceOf.fits (h : s.InstanceOf t) (hf : goal.fits s = true) : goal.fits t = true := by
  obtain ⟨hground, hinstance⟩ := fits_iff_instanceOf.mp hf
  exact fits_iff_instanceOf.mpr ⟨hground, hinstance.trans h⟩

/-- A replacement that another one takes back puts variables in place of variables. -/
theorem exists_var_of_under (h : (t.under σ).under τ = t) (hv : v ∈ t.occurrences) :
    ∃ w, σ v = .var w ∧ τ w = .var v := by
  have hsame : t.under (fun v => (σ v).under τ) = t.under .var := by
    rw [← under_under, h, under_var]
  have hback : (σ v).under τ = .var v := under_eq_under_iff.mp hsame v hv
  cases hσ : σ v with
  | var w =>
    rw [hσ] at hback
    exact ⟨w, rfl, hback⟩
  | app c ts =>
    rw [hσ] at hback
    cases hback

/-- Terms that are instances of each other are variants: the two replacements are inverse to each
other on the variables. -/
theorem VariantOf.of_instances (h : s.InstanceOf t) (h' : t.InstanceOf s) : s.VariantOf t := by
  obtain ⟨σ, hσ⟩ := h
  obtain ⟨τ, hτ⟩ := h'
  have hback : (t.under σ).under τ = t := by rw [hσ, hτ]
  have hvar : ∀ v, ∃ w, v ∈ t.occurrences → σ v = .var w ∧ τ w = .var v := by
    intro v
    by_cases hv : v ∈ t.occurrences
    · obtain ⟨w, hw⟩ := exists_var_of_under hback hv
      exact ⟨w, fun _ => hw⟩
    · exact ⟨v, fun h => absurd h hv⟩
  choose ρ hρ using hvar
  have hs : t.under (fun v => .var (ρ v)) = s := by
    rw [← hσ]
    exact under_eq_under_iff.mpr fun v hv => (hρ v hv).1.symm
  refine ⟨ρ, ⟨?_, ?_, ?_⟩, hs⟩
  · intro v hv
    have hv : v ∈ t.occurrences := mem_vars.mp hv
    rw [← hs]
    exact mem_vars.mpr (mem_occurrences_under.mpr ⟨v, hv, List.mem_singleton_self _⟩)
  · intro v hv w hw he
    have hv := (hρ v (mem_vars.mp hv)).2
    have hw := (hρ w (mem_vars.mp hw)).2
    have hvw : Term.var v = .var w := by rw [← hv, ← hw, he]
    cases hvw
    rfl
  · intro w hw
    have hw : w ∈ (t.under fun v => .var (ρ v)).occurrences := by
      rw [hs]
      exact mem_vars.mp hw
    obtain ⟨v, hv, hw⟩ := mem_occurrences_under.mp hw
    exact ⟨v, mem_vars.mpr hv, (List.mem_singleton.mp hw).symm⟩

theorem VariantOf.symm (h : s.VariantOf t) : t.VariantOf s := by
  obtain ⟨ρ, hbij, hs⟩ := h
  have : Nonempty Variable := ⟨⟨0, ""⟩⟩
  have hinverse := hbij.invOn_invFunOn
  refine ⟨_, hbij.symm hinverse.symm, ?_⟩
  rw [← hs, under_under]
  have hback : ∀ v ∈ t.occurrences,
      (Term.var (Function.invFunOn ρ {v | v ∈ t.vars} (ρ v)) : Term) = .var v := by
    intro v hv
    rw [hinverse.1 (mem_vars.mpr hv)]
  exact (under_eq_under_iff.mpr hback).trans t.under_var

theorem VariantOf.instanceOf (h : s.VariantOf t) : s.InstanceOf t := by
  obtain ⟨ρ, _, hs⟩ := h
  exact ⟨_, hs⟩

theorem variantOf_iff : s.InstanceOf t ∧ t.InstanceOf s ↔ s.VariantOf t :=
  ⟨fun h => .of_instances h.1 h.2, fun h => ⟨h.instanceOf, h.symm.instanceOf⟩⟩

end Term

/-- The test for instances is the instantiation preorder on all terms. It tells whether some
replacement of the variables of the second gives the first; it is reflexive and transitive, holds
both ways exactly between terms that differ by a renaming, and goals that match a term match all
that it is an instance of. -/
theorem instance_preorder (r s t goal : Term) :
    (s.isInstanceOf t = true ↔ ∃ σ : Variable → Term, t.under σ = s) ∧
    t.isInstanceOf t = true ∧
    (r.isInstanceOf s = true → s.isInstanceOf t = true → r.isInstanceOf t = true) ∧
    (s.isInstanceOf t = true ∧ t.isInstanceOf s = true ↔ s.VariantOf t) ∧
    (s.isInstanceOf t = true → goal.fits s = true → goal.fits t = true) := by
  simp only [Term.isInstanceOf_iff]
  exact ⟨Iff.rfl, .refl t, fun h h' => h.trans h', Term.variantOf_iff, fun h hf => h.fits hf⟩

def pairOf (s t : Term) : Term :=
  .app "Pair" [s, t]

/-- Pairs over the same two variables: one with the places exchanged, and one with a variable that
comes twice. -/
theorem pair_instances :
    (∃ σ : Variable → Term, (pairOf (.var ⟨0, "a"⟩) (.var ⟨1, "b"⟩)).under σ =
      pairOf (.var ⟨1, "b"⟩) (.var ⟨1, "b"⟩)) ∧
    (pairOf (.const "Int") (.const "Int")).isInstanceOf
      (pairOf (.var ⟨0, "a"⟩) (.var ⟨1, "b"⟩)) = true ∧
    (pairOf (.const "Int") (.const "Int")).fits (pairOf (.var ⟨0, "a"⟩) (.var ⟨1, "b"⟩)) = true ∧
    ¬(pairOf (.var ⟨1, "b"⟩) (.var ⟨1, "b"⟩)).VariantOf
      (pairOf (.var ⟨0, "a"⟩) (.var ⟨1, "b"⟩)) ∧
    (pairOf (.var ⟨1, "b"⟩) (.var ⟨0, "a"⟩)).VariantOf
      (pairOf (.var ⟨0, "a"⟩) (.var ⟨1, "b"⟩)) := by
  obtain ⟨hiff, _, htrans, hvariant, hfits⟩ := instance_preorder
    (pairOf (.const "Int") (.const "Int")) (pairOf (.var ⟨1, "b"⟩) (.var ⟨1, "b"⟩))
    (pairOf (.var ⟨0, "a"⟩) (.var ⟨1, "b"⟩)) (pairOf (.const "Int") (.const "Int"))
  obtain ⟨_, _, _, hswapped, _⟩ := instance_preorder
    (pairOf (.const "Int") (.const "Int")) (pairOf (.var ⟨1, "b"⟩) (.var ⟨0, "a"⟩))
    (pairOf (.var ⟨0, "a"⟩) (.var ⟨1, "b"⟩)) (pairOf (.const "Int") (.const "Int"))
  refine ⟨hiff.mp (by decide), htrans (by decide) (by decide), hfits (by decide) (by decide),
    fun h => ?_, hswapped.mp (by decide)⟩
  exact absurd (hvariant.mpr h).2 (by decide)

end Clausal
