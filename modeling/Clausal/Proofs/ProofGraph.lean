import Clausal.Proofs.ProofNodes
import Mathlib.Logic.Relation

namespace Clausal

namespace ProofTable

/-- A later table, in which every recorded proof is still found. -/
structure Extends (table table' : ProofTable) : Prop where
  size : table.size ≤ table'.size
  get? : ∀ id p, table.get? id = some p → table'.get? id = some p

/-- Some edge of a proof is met by another proof. -/
def Leads (table : ProofTable) (p q : Proof) : Prop :=
  ∃ e ∈ p.edges, table.get? e.link.target = some q

/-- A proof is built before another one, of which it meets a requirement. -/
def Builds (table : ProofTable) (q p : Proof) : Prop :=
  ∃ e ∈ p.edges, ∃ id, e.link = .built id ∧ table.get? id = some q

end ProofTable

/-- The number of an edge has been given out, and a built edge has a proof of its goal. -/
structure Edge.Anchored (table : ProofTable) (e : Edge) : Prop where
  lt : e.link.target < table.size
  built : ∀ id, e.link = .built id → ∃ q, table.get? id = some q ∧ q.goal = e.goal

/-- Every edge of a proof, and of each proof that it leads to, is met by a proof of its goal. -/
def Proof.Whole (table : ProofTable) (p : Proof) : Prop :=
  ∀ q, Relation.ReflTransGen table.Leads p q → ∀ e ∈ q.edges,
    ∃ q', table.get? e.link.target = some q' ∧ q'.goal = e.goal

/-- Every recorded proof fits a rule of the catalog, and those that it is built from come before
it. -/
structure ProofTable.Sound (catalog : Catalog) (table : ProofTable) : Prop where
  id : ∀ id p, table.get? id = some p → p.id = id
  fits : ∀ id p, table.get? id = some p → ∃ r subst, p.Fits catalog r subst
  anchored : ∀ id p, table.get? id = some p → ∀ e ∈ p.edges, e.Anchored table
  built : ∀ id p, table.get? id = some p → Acc table.Builds p

namespace ProofTable

variable {catalog : Catalog} {table table' : ProofTable} {p q : Proof} {e : Edge}

theorem lt_size_of_get? {id : ProofId} (h : table.get? id = some p) : id < table.size := by
  by_contra hn
  simp [get?_eq_none_of_size_le (Nat.le_of_not_lt hn)] at h

theorem extends_reserve (table : ProofTable) : table.Extends table.reserve.2 where
  size := by simp [reserve, size]
  get? id p h := by rw [get?_reserve, h]

theorem extends_record (hp : p.id < table.size) (hn : table.get? p.id = none) :
    table.Extends (table.record p) where
  size := Nat.le_of_eq (size_record table p).symm
  get? id q h := by
    rw [get?_record hp hn, if_neg, h]
    rintro rfl
    simp [hn] at h

end ProofTable

section

variable {catalog : Catalog} {table table' : ProofTable} {p q : Proof} {e : Edge}

theorem Edge.Anchored.extends (h : e.Anchored table) (he : table.Extends table') :
    e.Anchored table' where
  lt := Nat.lt_of_lt_of_le h.lt he.size
  built id hid := by
    obtain ⟨q, hq, hg⟩ := h.built id hid
    exact ⟨q, he.get? id q hq, hg⟩

/-- Proofs of which each edge is met by another one of them are whole. -/
theorem Proof.whole_of_closed (X : Proof → Prop)
    (hX : ∀ q, X q → ∀ e ∈ q.edges, ∃ q', table.get? e.link.target = some q' ∧ q'.goal = e.goal ∧ X q')
    (hp : X p) : p.Whole table := by
  intro q hq
  have hXq : X q := by
    induction hq with
    | refl => exact hp
    | tail _ hstep ih =>
      obtain ⟨e, he, hr⟩ := hstep
      obtain ⟨q', hq', _, hX'⟩ := hX _ ih e he
      obtain rfl := Option.some.inj (hr.symm.trans hq')
      exact hX'
  intro e he
  obtain ⟨q', hq', hg, _⟩ := hX q hXq e he
  exact ⟨q', hq', hg⟩

theorem Proof.Whole.edge (h : p.Whole table) (he : e ∈ p.edges) :
    ∃ q, table.get? e.link.target = some q ∧ q.goal = e.goal ∧ q.Whole table := by
  obtain ⟨q, hq, hg⟩ := h p .refl e he
  exact ⟨q, hq, hg, fun r hr => h r (.head ⟨e, he, hq⟩ hr)⟩

theorem Proof.Whole.extends (h : p.Whole table) (he : table.Extends table') : p.Whole table' := by
  apply Proof.whole_of_closed (fun q => q.Whole table) _ h
  intro q hq e hm
  obtain ⟨q', hq', hg, hw⟩ := hq.edge hm
  exact ⟨q', he.get? _ q' hq', hg, hw⟩

/-- A proof is built from proofs recorded before it, so a later table adds none. -/
theorem ProofTable.Sound.acc_extends (hs : table.Sound catalog) (he : table.Extends table')
    (hacc : Acc table.Builds p) (hp : ∀ e ∈ p.edges, e.Anchored table) : Acc table'.Builds p := by
  induction hacc with
  | intro p _ ih =>
    refine ⟨p, fun q hq => ?_⟩
    obtain ⟨e, hm, id, hlink, hid⟩ := hq
    obtain ⟨q', hq', _⟩ := (hp e hm).built id hlink
    obtain rfl := Option.some.inj (hid.symm.trans (he.get? id q' hq'))
    exact ih q ⟨e, hm, id, hlink, hq'⟩ (hs.anchored id q hq')

theorem ProofTable.Sound.reserve (hs : table.Sound catalog) : table.reserve.2.Sound catalog := by
  have he := table.extends_reserve
  refine ⟨?_, ?_, ?_, ?_⟩
  · intro id p hp
    rw [get?_reserve] at hp
    exact hs.id id p hp
  · intro id p hp
    rw [get?_reserve] at hp
    exact hs.fits id p hp
  · intro id p hp e hm
    rw [get?_reserve] at hp
    exact (hs.anchored id p hp e hm).extends he
  · intro id p hp
    rw [get?_reserve] at hp
    exact hs.acc_extends he (hs.built id p hp) (hs.anchored id p hp)

theorem ProofTable.Sound.record (hs : table.Sound catalog) (hp : p.id < table.size)
    (hn : table.get? p.id = none) (hfits : ∃ r subst, p.Fits catalog r subst)
    (hedges : ∀ e ∈ p.edges, e.Anchored table) : (table.record p).Sound catalog := by
  have he := extends_record hp hn
  have old : ∀ id q, (table.record p).get? id = some q →
      id = p.id ∧ q = p ∨ table.get? id = some q := by
    intro id q hq
    rw [get?_record hp hn] at hq
    split at hq
    next hi => exact .inl ⟨hi, (Option.some.inj hq).symm⟩
    next => exact .inr hq
  refine ⟨?_, ?_, ?_, ?_⟩
  · intro id q hq
    rcases old id q hq with ⟨rfl, rfl⟩ | hq
    · rfl
    · exact hs.id id q hq
  · intro id q hq
    rcases old id q hq with ⟨rfl, rfl⟩ | hq
    · exact hfits
    · exact hs.fits id q hq
  · intro id q hq e hm
    rcases old id q hq with ⟨rfl, rfl⟩ | hq
    · exact (hedges e hm).extends he
    · exact (hs.anchored id q hq e hm).extends he
  · intro id q hq
    rcases old id q hq with ⟨rfl, rfl⟩ | hq
    · refine ⟨q, fun r hr => ?_⟩
      obtain ⟨e, hm, id, hlink, hid⟩ := hr
      obtain ⟨r', hr', _⟩ := (hedges e hm).built id hlink
      obtain rfl := Option.some.inj (hid.symm.trans (he.get? id r' hr'))
      exact hs.acc_extends he (hs.built id r hr') (hs.anchored id r hr')
    · exact hs.acc_extends he (hs.built id q hq) (hs.anchored id q hq)

end

/-- The frames of a stack and their edges, seen against the proofs found: a frame has a number
without a proof, and what is below it or was found before it leads to lower numbers only. -/
structure Numbered (catalog : Catalog) (frames : List Frame) (table : ProofTable) : Prop where
  sound : ∀ (i : Nat) (f : Frame), frames[i]? = some f → f.Sound catalog
  anchored : ∀ (i : Nat) (f : Frame) e, frames[i]? = some f → f.Pending e → e.Anchored table
  fresh : ∀ (i : Nat) (f : Frame), frames[i]? = some f → f.id < table.size ∧ table.get? f.id = none
  ascending : ∀ (i j : Nat) (f f' : Frame), frames[i]? = some f → frames[j]? = some f' → i < j →
    f.id < f'.id
  older : ∀ (i : Nat) (f : Frame) id p e, frames[i]? = some f → table.get? id = some p →
    id < f.id → e ∈ p.edges → e.link.target < f.id
  earlier : ∀ (i j : Nat) (f f' : Frame) e, frames[i]? = some f → frames[j]? = some f' → i < j →
    f.Pending e → e.link.target < f'.id

/-- A stack of the same frames, or of some of them from the bottom. -/
theorem Numbered.trails {catalog : Catalog} {frames frames' : List Frame} {table : ProofTable}
    (h : Numbered catalog frames table)
    (ht : ∀ (i : Nat) (f : Frame), frames'[i]? = some f → ∃ f₀, frames[i]? = some f₀ ∧ f.Trails f₀) :
    Numbered catalog frames' table := by
  refine ⟨?_, ?_, ?_, ?_, ?_, ?_⟩
  · intro i f hf
    obtain ⟨f₀, hf₀, he⟩ := ht i f hf
    exact (h.sound i f₀ hf₀).trails he
  · intro i f e hf hp
    obtain ⟨f₀, hf₀, he⟩ := ht i f hf
    exact h.anchored i f₀ e hf₀ (hp.of_trails he)
  · intro i f hf
    obtain ⟨f₀, hf₀, he⟩ := ht i f hf
    rw [he.id]
    exact h.fresh i f₀ hf₀
  · intro i j f f' hf hf' hij
    obtain ⟨f₀, hf₀, he⟩ := ht i f hf
    obtain ⟨f₁, hf₁, he'⟩ := ht j f' hf'
    rw [he.id, he'.id]
    exact h.ascending i j f₀ f₁ hf₀ hf₁ hij
  · intro i f id p e hf hp hid hm
    obtain ⟨f₀, hf₀, he⟩ := ht i f hf
    rw [he.id] at hid ⊢
    exact h.older i f₀ id p e hf₀ hp hid hm
  · intro i j f f' e hf hf' hij hp
    obtain ⟨f₀, hf₀, he⟩ := ht i f hf
    obtain ⟨f₁, hf₁, he'⟩ := ht j f' hf'
    rw [he'.id]
    exact h.earlier i j f₀ f₁ e hf₀ hf₁ hij (hp.of_trails he)

theorem Numbered.push {catalog : Catalog} {frames : List Frame} {table : ProofTable} {goal : Term}
    (h : Numbered catalog frames table) (hc : catalog.Indexed) (hs : table.Sound catalog) :
    Numbered catalog (frames ++ [Frame.start catalog frames.length goal table.size])
      table.reserve.2 := by
  have he := table.extends_reserve
  refine ⟨?_, ?_, ?_, ?_, ?_, ?_⟩
  · intro i f hf
    rcases getElem?_concat_cases hf with ⟨_, hf⟩ | ⟨_, rfl⟩
    · exact h.sound i f hf
    · exact .start hc
  · intro i f e hf hp
    rcases getElem?_concat_cases hf with ⟨_, hf⟩ | ⟨_, rfl⟩
    · exact (h.anchored i f e hf hp).extends he
    · exact absurd hp Frame.not_pending_start
  · intro i f hf
    rw [ProofTable.get?_reserve]
    rcases getElem?_concat_cases hf with ⟨_, hf⟩ | ⟨_, rfl⟩
    · obtain ⟨hlt, hn⟩ := h.fresh i f hf
      exact ⟨Nat.lt_of_lt_of_le hlt he.size, hn⟩
    · exact ⟨by simp [Frame.start, ProofTable.reserve, ProofTable.size],
        ProofTable.get?_eq_none_of_size_le le_rfl⟩
  · intro i j f f' hf hf' hij
    rcases getElem?_concat_cases hf' with ⟨hj, hf'⟩ | ⟨rfl, rfl⟩
    · rcases getElem?_concat_cases hf with ⟨_, hf⟩ | ⟨rfl, _⟩
      · exact h.ascending i j f f' hf hf' hij
      · omega
    · rcases getElem?_concat_cases hf with ⟨_, hf⟩ | ⟨rfl, _⟩
      · exact (h.fresh i f hf).1
      · omega
  · intro i f id p e hf hp hid hm
    rw [ProofTable.get?_reserve] at hp
    rcases getElem?_concat_cases hf with ⟨_, hf⟩ | ⟨_, rfl⟩
    · exact h.older i f id p e hf hp hid hm
    · exact (hs.anchored id p hp e hm).lt
  · intro i j f f' e hf hf' hij hp
    rcases getElem?_concat_cases hf' with ⟨hj, hf'⟩ | ⟨rfl, rfl⟩
    · rcases getElem?_concat_cases hf with ⟨_, hf⟩ | ⟨rfl, _⟩
      · exact h.earlier i j f f' e hf hf' hij hp
      · omega
    · rcases getElem?_concat_cases hf with ⟨_, hf⟩ | ⟨rfl, _⟩
      · exact (h.anchored i f e hf hp).lt
      · omega

theorem Numbered.progress {catalog : Catalog} {below : List Frame} {top top' : Frame}
    {states : States} {table : ProofTable} (h : Numbered catalog (below ++ [top]) table)
    (hp : top.Progress states below.length top')
    (hans : ∀ r (e : Edge) low, Answers states below.length r e.goal (.ok e.link) low → e.Anchored table) :
    Numbered catalog (below ++ [top']) table := by
  obtain ⟨_, hid, _⟩ := hp.same
  have pending : ∀ e, top'.Pending e → e.Anchored table := by
    intro e he
    rcases hp.pending he with he | ⟨r, low, ha, _⟩
    · exact h.anchored _ top e getElem?_concat_top he
    · exact hans r e low ha
  have earlier : ∀ (i : Nat) (f : Frame), (below ++ [top'])[i]? = some f →
      ∃ f₀, (below ++ [top])[i]? = some f₀ ∧ f.id = f₀.id ∧
        (i < below.length ∧ f = f₀ ∨ i = below.length) := by
    intro i f hf
    rcases getElem?_concat_cases hf with ⟨hi, hf⟩ | ⟨rfl, rfl⟩
    · exact ⟨f, getElem?_concat_below hf, rfl, .inl ⟨hi, rfl⟩⟩
    · exact ⟨top, getElem?_concat_top, hid, .inr rfl⟩
  refine ⟨?_, ?_, ?_, ?_, ?_, ?_⟩
  · intro i f hf
    rcases getElem?_concat_cases hf with ⟨_, hf⟩ | ⟨rfl, rfl⟩
    · exact h.sound i f (getElem?_concat_below hf)
    · exact (h.sound _ top getElem?_concat_top).progress hp
  · intro i f e hf he
    rcases getElem?_concat_cases hf with ⟨_, hf⟩ | ⟨rfl, rfl⟩
    · exact h.anchored i f e (getElem?_concat_below hf) he
    · exact pending e he
  · intro i f hf
    obtain ⟨f₀, hf₀, hid, _⟩ := earlier i f hf
    rw [hid]
    exact h.fresh i f₀ hf₀
  · intro i j f f' hf hf' hij
    obtain ⟨f₀, hf₀, hid, _⟩ := earlier i f hf
    obtain ⟨f₁, hf₁, hid', _⟩ := earlier j f' hf'
    rw [hid, hid']
    exact h.ascending i j f₀ f₁ hf₀ hf₁ hij
  · intro i f id p e hf hpr hlt hm
    obtain ⟨f₀, hf₀, hid, _⟩ := earlier i f hf
    rw [hid] at hlt ⊢
    exact h.older i f₀ id p e hf₀ hpr hlt hm
  · intro i j f f' e hf hf' hij he
    obtain ⟨f₀, hf₀, _, ⟨_, rfl⟩ | rfl⟩ := earlier i f hf
    · obtain ⟨f₁, hf₁, hid', _⟩ := earlier j f' hf'
      rw [hid']
      exact h.earlier i j f f₁ e hf₀ hf₁ hij he
    · have hj := (List.getElem?_eq_some_iff.mp hf').1
      simp at hj
      omega

theorem Numbered.record {catalog : Catalog} {frames : List Frame} {table : ProofTable} {p : Proof}
    (h : Numbered catalog frames table) (hp : p.id < table.size) (hn : table.get? p.id = none)
    (hlt : ∀ (i : Nat) (f : Frame), frames[i]? = some f → f.id < p.id) :
    Numbered catalog frames (table.record p) := by
  have he := ProofTable.extends_record hp hn
  refine ⟨h.sound, ?_, ?_, h.ascending, ?_, h.earlier⟩
  · intro i f e hf hpe
    exact (h.anchored i f e hf hpe).extends he
  · intro i f hf
    obtain ⟨hsize, hnone⟩ := h.fresh i f hf
    rw [ProofTable.size_record, ProofTable.get?_record hp hn, if_neg (Nat.ne_of_lt (hlt i f hf))]
    exact ⟨hsize, hnone⟩
  · intro i f id q e hf hq hid hm
    have hne : id ≠ p.id := Nat.ne_of_lt (Nat.lt_trans hid (hlt i f hf))
    rw [ProofTable.get?_record hp hn, if_neg hne] at hq
    exact h.older i f id q e hf hq hid hm

end Clausal
