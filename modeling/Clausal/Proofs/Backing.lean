import Clausal.Proofs.ProofGraph

namespace Clausal

/-- The goal of an edge is settled by the edge's proof, or rests on a frame that `within` admits,
or is still under way on such a frame. -/
inductive Edge.Backed (states : States) (within : Nat → Prop) (e : Edge) : Prop
  | resolved {q} : states e.goal = some (.resolved q) → q.id = e.link.target →
      Backed states within e
  | provisional {k q chain} : states e.goal = some (.provisional k (.ok q) chain) →
      q.id = e.link.target → within k → Backed states within e
  | inProgress {j id} : states e.goal = some (.inProgress j id) → id = e.link.target →
      within j → Backed states within e

/-- Whatever rests on frame `k` rests on nothing below frame `k'`, or will once a frame above `k`
is done. -/
def Covers (frames : List Frame) (k k' : Nat) : Prop :=
  k ≤ k' ∨ ∃ j f, k ≤ j ∧ frames[j]? = some f ∧ f.reach ≤ k'

/-- The proofs in a ledger are recorded. A final one is whole, and the edges of a provisional one
and those pending on the stack lead to proofs in the ledger or to goals under way. -/
structure Warranted (frames : List Frame) (states : States) (table : ProofTable) : Prop where
  resolved : ∀ g p, states g = some (.resolved p) →
    p.goal = g ∧ table.get? p.id = some p ∧ p.Whole table
  provisional : ∀ g k p chain, states g = some (.provisional k (.ok p) chain) →
    p.goal = g ∧ table.get? p.id = some p ∧ ∀ e ∈ p.edges, e.Backed states (Covers frames k)
  pending : ∀ (i : Nat) (f : Frame) e, frames[i]? = some f → ¬CutFrom frames i → f.Pending e →
    e.Backed states fun k => f.reach ≤ k ∧ k ≤ i

section

variable {states states' : States} {within within' : Nat → Prop} {e : Edge}
  {frames frames' : List Frame} {table : ProofTable}

theorem Edge.Backed.mono (h : e.Backed states within) (hw : ∀ k, within k → within' k) :
    e.Backed states within' := by
  cases h with
  | resolved hg hid => exact .resolved hg hid
  | provisional hg hid hk => exact .provisional hg hid (hw _ hk)
  | inProgress hg hid hj => exact .inProgress hg hid (hw _ hj)

theorem Edge.Backed.congr (h : e.Backed states within) (he : states' e.goal = states e.goal) :
    e.Backed states' within := by
  cases h with
  | resolved hg hid => exact .resolved (he.trans hg) hid
  | provisional hg hid hk => exact .provisional (he.trans hg) hid hk
  | inProgress hg hid hj => exact .inProgress (he.trans hg) hid hj

theorem Edge.Backed.ne_none (h : e.Backed states within) : states e.goal ≠ none := by
  cases h with
  | resolved hg _ => simp [hg]
  | provisional hg _ _ => simp [hg]
  | inProgress hg _ _ => simp [hg]

theorem Covers.mono {k k' : Nat} (h : Covers frames k k')
    (hf : ∀ (j : Nat) (f : Frame), frames[j]? = some f → ∃ f', frames'[j]? = some f' ∧ f'.reach ≤ f.reach) :
    Covers frames' k k' := by
  rcases h with h | ⟨j, f, hj, hfr, hr⟩
  · exact .inl h
  · obtain ⟨f', hf', hle⟩ := hf j f hfr
    exact .inr ⟨j, f', hj, hf', le_trans hle hr⟩

/-- An answer leads to a proof in the ledger, or to a goal under way. -/
theorem Answers.backed {depth low : Nat} {r : Requirement}
    (h : Answers states depth r e.goal (.ok e.link) low) (hw : low ≤ depth → within low) 
    (hd : ∀ k o chain, states e.goal = some (.provisional k o chain) → k ≤ depth)
    (hj : ∀ j id, states e.goal = some (.inProgress j id) → j ≤ depth) :
    e.Backed states within := by
  obtain ⟨goal, link, deferrable⟩ := e
  cases h with
  | back hg _ => exact .inProgress hg rfl (hw (hj _ _ hg))
  | provisional hg => exact .provisional hg rfl (hw (hd _ _ _ hg))
  | resolved hg _ => exact .resolved hg rfl

theorem Warranted.anchored (h : Warranted frames states table) (ha : Aligned frames states)
    (hf : ∀ (i : Nat) (f : Frame), frames[i]? = some f → f.id < table.size) {r : Requirement}
    {depth low : Nat} (hans : Answers states depth r e.goal (.ok e.link) low) :
    e.Anchored table := by
  obtain ⟨goal, link, deferrable⟩ := e
  cases hans with
  | @back j id hg _ =>
    obtain ⟨f, hfr, _, rfl⟩ := ha.inProgress _ _ _ hg
    exact ⟨hf _ f hfr, by simp⟩
  | @provisional low p chain hg =>
    obtain ⟨hgoal, hp, _⟩ := h.provisional _ _ _ _ hg
    refine ⟨ProofTable.lt_size_of_get? hp, ?_⟩
    rintro id ⟨rfl⟩
    exact ⟨p, hp, hgoal⟩
  | @resolved p low hg _ =>
    obtain ⟨hgoal, hp, _⟩ := h.resolved _ _ hg
    refine ⟨ProofTable.lt_size_of_get? hp, ?_⟩
    rintro id ⟨rfl⟩
    exact ⟨p, hp, hgoal⟩

theorem Warranted.extends {table' : ProofTable} (h : Warranted frames states table)
    (he : table.Extends table') : Warranted frames states table' where
  resolved g p hg := by
    obtain ⟨hgoal, hp, hw⟩ := h.resolved g p hg
    exact ⟨hgoal, he.get? _ p hp, hw.extends he⟩
  provisional g k p chain hg := by
    obtain ⟨hgoal, hp, hb⟩ := h.provisional g k p chain hg
    exact ⟨hgoal, he.get? _ p hp, hb⟩
  pending := h.pending

theorem Warranted.refer (h : Warranted frames states table) (j : Nat) :
    Warranted (frames.modify j Frame.refer) states table where
  resolved := h.resolved
  provisional g k p chain hg := by
    obtain ⟨hgoal, hp, hb⟩ := h.provisional g k p chain hg
    refine ⟨hgoal, hp, fun e he => (hb e he).mono fun m hm => hm.mono ?_⟩
    intro i f hf
    obtain ⟨f', hf', ht⟩ := exists_getElem?_refer j hf
    exact ⟨f', hf', ht.trails.reach_le⟩
  pending i f e hf hc he := by
    obtain ⟨f₀, hf₀, ht⟩ := getElem?_refer hf
    have hb := h.pending i f₀ e hf₀ (fun hh => hc hh.refer) (he.of_trails ht.trails)
    refine hb.mono fun k hk => ⟨le_trans ht.trails.reach_le hk.1, hk.2⟩

theorem Warranted.push (catalog : Catalog) {goal : Term} (h : Warranted frames states table)
    (hg : states goal = none)
    (hs : ∀ g, states' g = if g = goal then some (.inProgress frames.length table.size)
      else states g) :
    Warranted (frames ++ [Frame.start catalog frames.length goal table.size]) states' table := by
  have same : ∀ g state, states' g = some state → (∀ i id, state ≠ .inProgress i id) →
      states g = some state := by
    intro g state hg' hne
    rw [hs] at hg'
    split at hg'
    · exact absurd (Option.some.inj hg').symm (hne _ _)
    · exact hg'
  have kept : ∀ {within : Nat → Prop} {e : Edge}, e.Backed states within →
      e.Backed states' within := by
    intro within e hb
    apply hb.congr
    rw [hs, if_neg]
    intro he
    exact hb.ne_none (he ▸ hg)
  refine ⟨?_, ?_, ?_⟩
  · intro g p hp
    exact h.resolved g p (same g _ hp (by simp))
  · intro g k p chain hp
    obtain ⟨hgoal, htable, hb⟩ := h.provisional g k p chain (same g _ hp (by simp))
    refine ⟨hgoal, htable, fun e he => (kept (hb e he)).mono fun m hm => hm.mono ?_⟩
    exact fun j f hf => ⟨f, getElem?_concat_below hf, le_rfl⟩
  · intro i f e hf hc he
    rcases getElem?_concat_cases hf with ⟨_, hf⟩ | ⟨_, rfl⟩
    · exact kept (h.pending i f e hf (fun hh => hc hh.concat) he)
    · exact absurd he Frame.not_pending_start

theorem Warranted.progress {below : List Frame} {top top' : Frame}
    (h : Warranted (below ++ [top]) states table) (ha : Aligned (below ++ [top]) states)
    (hp : top.Progress states below.length top') : Warranted (below ++ [top']) states table := by
  refine ⟨h.resolved, ?_, ?_⟩
  · intro g k p chain hg
    obtain ⟨hgoal, htable, hb⟩ := h.provisional g k p chain hg
    refine ⟨hgoal, htable, fun e he => (hb e he).mono fun m hm => hm.mono ?_⟩
    intro j f hf
    rcases getElem?_concat_cases hf with ⟨_, hf⟩ | ⟨rfl, rfl⟩
    · exact ⟨f, getElem?_concat_below hf, le_rfl⟩
    · exact ⟨top', getElem?_concat_top, hp.reach_le⟩
  · intro i f e hf hc he
    have hc' : ¬CutFrom (below ++ [top]) i := fun hh => hc (hh.progress hp)
    rcases getElem?_concat_cases hf with ⟨_, hf⟩ | ⟨rfl, rfl⟩
    · exact h.pending i f e (getElem?_concat_below hf) hc' he
    · rcases hp.pending he with he | ⟨r, low, hans, hr⟩
      · have hb := h.pending _ top e getElem?_concat_top hc' he
        exact hb.mono fun k hk => ⟨le_trans hp.reach_le hk.1, hk.2⟩
      · have bound : ∀ (k : Nat) (f : Frame), (below ++ [top])[k]? = some f → k ≤ below.length := by
          intro k f hf
          have := (List.getElem?_eq_some_iff.mp hf).1
          simp at this
          omega
        apply hans.backed (fun hle => ⟨hr, hle⟩)
        · intro k o chain hg
          obtain ⟨f, hf, _⟩ := ha.provisional _ k o chain hg
          exact bound k f hf
        · intro j id hg
          obtain ⟨f, hf, _⟩ := ha.inProgress _ j id hg
          exact bound j f hf

end

end Clausal
