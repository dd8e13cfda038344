import Clausal.Proofs.Calls
import Clausal.Proofs.PlainRecursion
import Clausal.Proofs.ProofGraph
import Mathlib.Data.List.Chain
import Mathlib.Data.Set.Finite.Basic

namespace Clausal

variable {catalog : Catalog} {frames : List Frame} {states : States}

/-- The requirement that a trial meets next is one that its goal needs. -/
theorem Frame.Sound.needs {f : Frame} (hs : f.Sound catalog) {t : Trial} {r : Requirement}
    {goal : Term} (ht : f.trial = some t) (hr : t.next? = some r)
    (ha : t.subst.apply r.pattern = .ok goal) : catalog.Needs f.goal goal := by
  obtain ⟨hmem, hu, _, _⟩ := hs.trial t ht
  exact ⟨t.rule, hmem, t.subst, hu, r, List.mem_of_getElem? hr, ha⟩

/-- Every frame is there for a goal that the frame below it needs. -/
theorem Aligned.needs (h : Aligned frames states)
    (hs : ∀ (i : Nat) (f : Frame), frames[i]? = some f → f.Sound catalog) {i : Nat} {f f' : Frame}
    (hf : frames[i]? = some f) (hf' : frames[i + 1]? = some f') : catalog.Needs f.goal f'.goal := by
  obtain ⟨t, r, ht, hr, ha⟩ := h.waiting i f f' hf hf'
  exact (hs i f hf).needs ht hr ha

theorem Aligned.reaches (h : Aligned frames states)
    (hs : ∀ (i : Nat) (f : Frame), frames[i]? = some f → f.Sound catalog) {i j : Nat} {f f' : Frame}
    (hf : frames[i]? = some f) (hf' : frames[j]? = some f') (hij : i ≤ j) :
    Relation.ReflTransGen catalog.Needs f.goal f'.goal := by
  induction j, hij using Nat.le_induction generalizing f' with
  | base =>
    obtain rfl := Option.some.inj (hf.symm.trans hf')
    exact .refl
  | succ j hij ih =>
    have hj : j < frames.length := by
      have := (List.getElem?_eq_some_iff.mp hf').1
      omega
    have hmid := List.getElem?_eq_getElem hj
    exact .tail (ih hmid) (h.needs hs hmid hf')

/-- The goals of the stack are a path along what goals need. -/
theorem Aligned.goals_isChain (h : Aligned frames states)
    (hs : ∀ (i : Nat) (f : Frame), frames[i]? = some f → f.Sound catalog) :
    (frames.map Frame.goal).IsChain catalog.Needs := by
  rw [List.isChain_map, List.isChain_iff_getElem]
  intro i hi
  exact h.needs hs (List.getElem?_eq_getElem (by omega)) (List.getElem?_eq_getElem hi)

theorem Aligned.goals_nodup (h : Aligned frames states) : (frames.map Frame.goal).Nodup := by
  rw [List.nodup_iff_getElem?_ne_getElem?]
  intro i j hij hj he
  rw [List.length_map] at hj
  have hi : i < frames.length := by omega
  rw [List.getElem?_map, List.getElem?_map, List.getElem?_eq_getElem hi,
    List.getElem?_eq_getElem hj, Option.map_some, Option.map_some, Option.some.injEq] at he
  have hfi := h.framed i frames[i] (List.getElem?_eq_getElem hi)
  have hfj := h.framed j frames[j] (List.getElem?_eq_getElem hj)
  rw [he, hfj] at hfi
  simp only [Option.some.injEq, GoalState.inProgress.injEq] at hfi
  omega

/-- A stack is no longer than there are goals to reach from its outermost one. -/
theorem Aligned.length_le (h : Aligned frames states)
    (hs : ∀ (i : Nat) (f : Frame), frames[i]? = some f → f.Sound catalog) {root : Term}
    (hroot : frames[0]?.map Frame.goal = some root)
    (hfin : {x | Relation.ReflTransGen catalog.Needs root x}.Finite) :
    frames.length ≤ hfin.toFinset.card := by
  obtain ⟨f₀, hf₀, rfl⟩ := Option.map_eq_some_iff.mp hroot
  have hsub : (frames.map Frame.goal).toFinset ⊆ hfin.toFinset := by
    intro x hx
    obtain ⟨f, hf, rfl⟩ := List.mem_map.mp (List.mem_toFinset.mp hx)
    obtain ⟨j, hj⟩ := List.mem_iff_getElem?.mp hf
    exact hfin.mem_toFinset.mpr (h.reaches hs hf₀ hj (Nat.zero_le j))
  have hcard := Finset.card_le_card hsub
  rwa [List.toFinset_card_of_nodup h.goals_nodup, List.length_map] at hcard

/-- A goal from which chains of needs end is not asked for while it is under way. -/
theorem Aligned.not_inProgress (h : Aligned frames states)
    (hs : ∀ (i : Nat) (f : Frame), frames[i]? = some f → f.Sound catalog) {i : Nat} {f : Frame}
    (hf : frames[i]? = some f) (hlast : frames.length ≤ i + 1) {goal : Term}
    (hneeds : catalog.Needs f.goal goal) (hg : catalog.Grounded goal) (j : Nat) (id : ProofId) :
    states goal ≠ some (.inProgress j id) := by
  intro he
  obtain ⟨f', hf', rfl, _⟩ := h.inProgress goal j id he
  have hj := (List.getElem?_eq_some_iff.mp hf').1
  exact hg.not_cycle (.tail' (h.reaches hs hf' hf (by omega)) hneeds)

end Clausal
