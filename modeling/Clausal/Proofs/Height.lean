import Clausal.Proofs.ProofGraph
import Mathlib.Data.Finset.Card
import Mathlib.Data.Finset.Range

namespace Clausal

namespace ProofTable

open Classical in
/-- The numbers of the proofs that a proof is built from, directly or through others. -/
noncomputable def parts (table : ProofTable) (p : Proof) : Finset ProofId :=
  (Finset.range table.size).filter fun id =>
    ∃ q, table.get? id = some q ∧ Relation.TransGen table.Builds q p

/-- How many proofs a proof is built from. -/
noncomputable def height (table : ProofTable) (p : Proof) : Nat :=
  (table.parts p).card

variable {catalog : Catalog} {table : ProofTable} {p q : Proof} {id : ProofId}

theorem mem_parts : id ∈ table.parts p ↔
    ∃ q, table.get? id = some q ∧ Relation.TransGen table.Builds q p := by
  simp only [parts, Finset.mem_filter, Finset.mem_range]
  refine ⟨And.right, fun h => ⟨?_, h⟩⟩
  obtain ⟨q, hq, _⟩ := h
  exact lt_size_of_get? hq

theorem height_le_size (table : ProofTable) (p : Proof) : table.height p ≤ table.size := by
  have hsub : table.parts p ⊆ Finset.range table.size := by
    intro id hid
    obtain ⟨q, hq, _⟩ := mem_parts.mp hid
    exact Finset.mem_range.mpr (lt_size_of_get? hq)
  have hcard := Finset.card_le_card hsub
  rwa [Finset.card_range] at hcard

theorem Sound.not_builds_cycle (hs : table.Sound catalog) (hp : table.get? id = some p) :
    ¬Relation.TransGen table.Builds p p := by
  have hacc := (hs.built id p hp).transGen
  intro hcycle
  clear hp
  induction hacc with
  | intro p _ ih => exact ih p hcycle hcycle

/-- A proof stands higher than those that it is built from. -/
theorem Sound.height_lt (hs : table.Sound catalog) (h : table.Builds q p) :
    table.height q < table.height p := by
  have ⟨_, _, n, _, hn⟩ := h
  have hsub : table.parts q ⊆ table.parts p := by
    intro id hid
    obtain ⟨q', hq', hb⟩ := mem_parts.mp hid
    exact mem_parts.mpr ⟨q', hq', hb.tail h⟩
  apply Finset.card_lt_card
  rw [Finset.ssubset_iff_of_subset hsub]
  refine ⟨n, mem_parts.mpr ⟨q, hn, .single h⟩, fun hm => ?_⟩
  obtain ⟨q', hq', hcycle⟩ := mem_parts.mp hm
  obtain rfl := Option.some.inj (hn.symm.trans hq')
  exact hs.not_builds_cycle hn hcycle

end ProofTable

end Clausal
