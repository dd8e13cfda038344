import Clausal.Proofs.Instances
import Clausal.Selection
import Mathlib.Data.List.Nodup
import Mathlib.Data.List.Perm.Basic

namespace Clausal

theorem Term.dominates_asymm {s t : Term} (h : s.dominates t = true) : t.dominates s = false := by
  simp only [dominates, Bool.and_eq_true, Bool.not_eq_true'] at h
  simp [dominates, h.1, h.2]

/-- The success at an index has a head strictly more specific than the heads of all others. -/
def MostSpecificAt (successes : List Success) (i : Nat) (s : Success) : Prop :=
  successes[i]? = some s ∧ ∀ (j : Nat) (other : Success), successes[j]? = some other → j ≠ i →
    s.rule.head.dominates other.rule.head = true

theorem MostSpecificAt.unique {successes : List Success} {i j : Nat} {s t : Success}
    (hs : MostSpecificAt successes i s) (ht : MostSpecificAt successes j t) : i = j := by
  by_contra hne
  have hst := hs.2 j t ht.1 (Ne.symm hne)
  have hts := ht.2 i s hs.1 hne
  rw [Term.dominates_asymm hst] at hts
  cases hts

theorem mem_winners_iff {successes : List Success} {w : Success × Nat} :
    w ∈ (successes.zipIdx.filter fun s =>
      successes.zipIdx.all fun other =>
        other.2 == s.2 || s.1.rule.head.dominates other.1.rule.head) ↔
      MostSpecificAt successes w.2 w.1 := by
  simp only [List.mem_filter, List.mem_zipIdx_iff_getElem?, List.all_eq_true, Prod.forall,
    Bool.or_eq_true, beq_iff_eq, MostSpecificAt]
  constructor
  · rintro ⟨hw, hall⟩
    refine ⟨hw, fun j other hj hne => ?_⟩
    exact (hall other j hj).resolve_left hne
  · rintro ⟨hw, hall⟩
    refine ⟨hw, fun other j hj => ?_⟩
    by_cases hne : j = w.2
    · exact .inl hne
    · exact .inr (hall j other hj hne)

/-- The tie goes to the success whose head is strictly more specific than the heads of all others,
and there is at most one. -/
theorem mostSpecific?_eq_some_iff {successes : List Success} {s : Success} :
    mostSpecific? successes = some s ↔ ∃ i, MostSpecificAt successes i s := by
  have hnodup : (successes.zipIdx.filter fun s =>
      successes.zipIdx.all fun other =>
        other.2 == s.2 || s.1.rule.head.dominates other.1.rule.head).Nodup :=
    List.Nodup.filter _ (List.Nodup.of_map Prod.snd (by
      rw [List.zipIdx_map_snd]
      exact List.nodup_range'))
  unfold mostSpecific?
  dsimp only
  generalize hw : successes.zipIdx.filter _ = winners at hnodup
  have hmem : ∀ w, w ∈ winners ↔ MostSpecificAt successes w.2 w.1 := fun w => hw ▸ mem_winners_iff
  cases winners with
  | nil =>
    simp only [reduceCtorEq, false_iff, not_exists]
    intro i hi
    simpa using (hmem (s, i)).mpr hi
  | cons w rest =>
    have hspecific := (hmem w).mp List.mem_cons_self
    have hrest : rest = [] := by
      by_contra hne
      obtain ⟨x, hx⟩ := List.exists_mem_of_ne_nil rest hne
      have hother := (hmem x).mp (List.mem_cons_of_mem w hx)
      have hidx := hspecific.unique hother
      have heq : w = x := by
        have h₁ := hspecific.1
        rw [hidx, hother.1] at h₁
        exact Prod.ext (Option.some.inj h₁).symm hidx
      rw [heq] at hnodup
      exact (List.nodup_cons.mp hnodup).1 hx
    subst hrest
    simp only [Option.some.injEq]
    constructor
    · rintro rfl
      exact ⟨w.2, hspecific⟩
    · rintro ⟨i, hi⟩
      have hidx := hspecific.unique hi
      have h₁ := hspecific.1
      rw [hidx, hi.1] at h₁
      exact (Option.some.inj h₁).symm

/-- The head is an instance of the other, which is no instance of it. -/
theorem Term.dominates_iff {s t : Term} :
    s.dominates t = true ↔ s.InstanceOf t ∧ ¬t.InstanceOf s := by
  simp only [dominates, Bool.and_eq_true, Bool.not_eq_true', ← isInstanceOf_iff, Bool.not_eq_true]

section

variable {successes shuffled : List Success} {i j : Nat} {s t : Success}

/-- The head at an index is an instance of the heads at all other indices, none of which is an
instance of it. -/
def MostSpecificHead (successes : List Success) (i : Nat) : Prop :=
  ∃ s, successes[i]? = some s ∧ ∀ j other, successes[j]? = some other → j ≠ i →
    s.rule.head.InstanceOf other.rule.head ∧ ¬other.rule.head.InstanceOf s.rule.head

theorem mostSpecificHead_iff : MostSpecificHead successes i ↔ ∃ s, MostSpecificAt successes i s := by
  simp only [MostSpecificHead, MostSpecificAt, Term.dominates_iff]

/-- A success that is listed twice wins at neither place, so the winner tells its index. -/
theorem MostSpecificAt.index_eq (h : MostSpecificAt successes j s) (hi : successes[i]? = some s) :
    i = j := by
  by_contra hne
  have hself : s.rule.head.dominates s.rule.head = true := h.2 i s hi hne
  have hnot := Term.dominates_asymm hself
  rw [hself] at hnot
  cases hnot

/-- Where the winner stands does not matter, only that it dominates those that are left without
it. -/
theorem exists_mostSpecificAt_iff : (∃ i, MostSpecificAt successes i s) ↔
    ∃ rest, successes.Perm (s :: rest) ∧
      ∀ other ∈ rest, s.rule.head.dominates other.rule.head = true := by
  have without : ∀ {i}, successes[i]? = some s → successes.Perm (s :: successes.eraseIdx i) := by
    intro i hi
    obtain ⟨hlt, he⟩ := List.getElem?_eq_some_iff.mp hi
    have hperm := (List.getElem_cons_eraseIdx_perm hlt).symm
    rwa [he] at hperm
  constructor
  · intro ⟨i, hi, hall⟩
    refine ⟨successes.eraseIdx i, without hi, fun other hother => ?_⟩
    obtain ⟨j, hne, hj⟩ := List.mem_eraseIdx_iff_getElem?.mp hother
    exact hall j other hj hne
  · intro ⟨rest, hperm, hall⟩
    have hmem : s ∈ successes := hperm.mem_iff.mpr List.mem_cons_self
    obtain ⟨i, hi⟩ := List.mem_iff_getElem?.mp hmem
    have hrest : (successes.eraseIdx i).Perm rest := ((without hi).symm.trans hperm).cons_inv
    refine ⟨i, hi, fun j other hj hne => hall other ?_⟩
    exact hrest.mem_iff.mp (List.mem_eraseIdx_iff_getElem?.mpr ⟨j, hne, hj⟩)

theorem mostSpecific?_perm (h : successes.Perm shuffled) :
    mostSpecific? shuffled = mostSpecific? successes := by
  refine Option.ext fun s => ?_
  rw [mostSpecific?_eq_some_iff, mostSpecific?_eq_some_iff, exists_mostSpecificAt_iff,
    exists_mostSpecificAt_iff]
  constructor
  · intro ⟨rest, hperm, hall⟩
    exact ⟨rest, h.trans hperm, hall⟩
  · intro ⟨rest, hperm, hall⟩
    exact ⟨rest, h.symm.trans hperm, hall⟩

theorem mostSpecific?_eq_some_of_getElem? (hi : successes[i]? = some s) :
    mostSpecific? successes = some s ↔ MostSpecificHead successes i := by
  rw [mostSpecific?_eq_some_iff, mostSpecificHead_iff]
  constructor
  · intro ⟨j, hj⟩
    have hij := hj.index_eq hi
    subst hij
    exact ⟨s, hj⟩
  · intro ⟨t, ht⟩
    have hst : s = t := Option.some.inj (hi.symm.trans ht.1)
    subst hst
    exact ⟨i, ht⟩

theorem mostSpecific?_eq_none_iff :
    mostSpecific? successes = none ↔ ∀ i, ¬MostSpecificHead successes i := by
  simp only [Option.eq_none_iff_forall_ne_some, Ne, mostSpecific?_eq_some_iff, mostSpecificHead_iff,
    not_exists]
  exact forall_comm

end

/-- Between several successes, the preference for specific rules picks the one whose head is an
instance of all other heads while none of those is an instance of it. There is at most one, so the
choice only fails when there is none, and the order of the successes does not matter. -/
theorem tie_break_exact (bound : Option Nat) (successes : List Success) :
    (∀ i s, successes[i]? = some s →
      ((Policy.mk bound .mostSpecific).choose? successes = some s ↔
        MostSpecificHead successes i)) ∧
    (∀ i j, MostSpecificHead successes i → MostSpecificHead successes j → i = j) ∧
    ((Policy.mk bound .mostSpecific).choose? successes = none ↔
      ∀ i, ¬MostSpecificHead successes i) ∧
    ∀ shuffled, successes.Perm shuffled →
      (Policy.mk bound .mostSpecific).choose? shuffled =
        (Policy.mk bound .mostSpecific).choose? successes := by
  refine ⟨fun i s hi => mostSpecific?_eq_some_of_getElem? hi, fun i j hi hj => ?_,
    mostSpecific?_eq_none_iff, fun shuffled h => mostSpecific?_perm h⟩
  obtain ⟨s, hs⟩ := mostSpecificHead_iff.mp hi
  obtain ⟨t, ht⟩ := mostSpecificHead_iff.mp hj
  exact hs.unique ht

/-- Three ways to prove a pair, of which the last is the most specific. The first two differ only
by the names of their variables. -/
def pairSuccesses : List Success :=
  [⟨⟨0, "core::pair", pairOf (.var ⟨0, "a"⟩) (.var ⟨1, "b"⟩), []⟩, []⟩,
    ⟨⟨1, "core::swap", pairOf (.var ⟨1, "b"⟩) (.var ⟨0, "a"⟩), []⟩, []⟩,
    ⟨⟨2, "core::twin", pairOf (.var ⟨1, "b"⟩) (.var ⟨1, "b"⟩), []⟩, []⟩]

theorem pair_tie_broken :
    MostSpecificHead pairSuccesses 2 ∧ ¬MostSpecificHead pairSuccesses 0 ∧
    (∀ i, ¬MostSpecificHead (pairSuccesses.take 2) i) ∧
    ((Policy.mk none .mostSpecific).choose? pairSuccesses.reverse).map (fun s => s.rule.name) =
      some "core::twin" := by
  obtain ⟨hpick, honly, _, hperm⟩ := tie_break_exact none pairSuccesses
  obtain ⟨_, _, hnone, _⟩ := tie_break_exact none (pairSuccesses.take 2)
  have hlast : MostSpecificHead pairSuccesses 2 := (hpick 2 _ rfl).mp rfl
  refine ⟨hlast, fun h => absurd (honly 0 2 h hlast) (by decide), hnone.mp rfl, ?_⟩
  rw [hperm _ (List.reverse_perm pairSuccesses).symm]
  rfl

end Clausal
