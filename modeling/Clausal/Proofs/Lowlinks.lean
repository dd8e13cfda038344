import Clausal.Proofs.Course
import Clausal.Proofs.StackGoals

namespace Clausal

/-- An edge links back to a search, by itself or by way of the proofs that it is built from. -/
inductive Edge.LinksBack (table : ProofTable) : Edge → ProofId → Prop
  | back {e : Edge} {id : ProofId} : e.link = .back id → LinksBack table e id
  | built {e e' : Edge} {id k : ProofId} {q : Proof} : e.link = .built k →
      table.get? k = some q → e' ∈ q.edges → LinksBack table e' id → LinksBack table e id

/-- The search with a number, as long as it is under way, is on frame `k` or above it. -/
def NotBelow (frames : List Frame) (k : Nat) (id : ProofId) : Prop :=
  ∀ (j : Nat) (f : Frame), frames[j]? = some f → f.id = id → k ≤ j

/-- What is known and what is pending links back to no frame below the one that it rests on. -/
structure Lowlinked (frames : List Frame) (states : States) (table : ProofTable) : Prop where
  provisional : ∀ g k p chain, states g = some (.provisional k (.ok p) chain) → ∀ e ∈ p.edges,
    ∀ id, e.LinksBack table id → NotBelow frames k id
  pending : ∀ (i : Nat) (f : Frame) e id, frames[i]? = some f → f.Pending e →
    e.LinksBack table id → NotBelow frames f.reach id

section

variable {catalog : Catalog} {table table' : ProofTable} {e : Edge} {id : ProofId} {p : Proof}

/-- What an edge links back to is settled when the edge comes up; proofs found later have no part in
it. -/
theorem Edge.LinksBack.of_extends (h : e.LinksBack table' id) (hs : table.Sound catalog)
    (he : table.Extends table') (ha : e.Anchored table) : e.LinksBack table id := by
  induction h with
  | back hl => exact .back hl
  | @built e e' id k q hl hq hm _ ih =>
    obtain ⟨q', hq', _⟩ := ha.built k hl
    obtain rfl := Option.some.inj (hq.symm.trans (he.get? k q' hq'))
    exact .built hl hq' hm (ih (hs.anchored k q hq' e' hm))

theorem Edge.LinksBack.lt (h : e.LinksBack table id) (hs : table.Sound catalog)
    (ha : e.Anchored table) : id < table.size := by
  induction h with
  | back hl =>
    have hlt := ha.lt
    rwa [hl] at hlt
  | @built e e' id k q hl hq hm _ ih => exact ih (hs.anchored k q hq e' hm)

/-- The search that a proof links back to is the target of a back link in a proof that it leads
to. -/
theorem Edge.LinksBack.leads (h : e.LinksBack table id) (he : e ∈ p.edges) :
    ∃ q, Relation.ReflTransGen table.Leads p q ∧ ∃ e' ∈ q.edges, e'.link.target = id := by
  induction h generalizing p with
  | back hl => exact ⟨p, .refl, _, he, by rw [hl]; rfl⟩
  | built hl hq hm _ ih =>
    obtain ⟨r, hr, e', he', hid⟩ := ih hm
    exact ⟨r, .head ⟨_, he, by rw [hl]; exact hq⟩ hr, e', he', hid⟩

theorem Proof.Whole.fulfilled (hw : p.Whole table) (he : e ∈ p.edges) (h : e.LinksBack table id) :
    ∃ q, table.get? id = some q := by
  obtain ⟨r, hr, e', he', rfl⟩ := h.leads he
  obtain ⟨q, hq, _⟩ := hw r hr e' he'
  exact ⟨q, hq⟩

end

section

variable {catalog : Catalog} {policy : Policy} {frames frames' : List Frame}
  {states states' : States} {table : ProofTable} {id : ProofId} {k k' : Nat}

theorem NotBelow.mono (h : NotBelow frames k id) (hk : k' ≤ k)
    (hf : ∀ (j : Nat) (f : Frame), frames'[j]? = some f → ∃ f₀, frames[j]? = some f₀ ∧ f.id = f₀.id) :
    NotBelow frames' k' id := by
  intro j f hfr hid
  obtain ⟨f₀, hf₀, hsame⟩ := hf j f hfr
  exact le_trans hk (h j f₀ hf₀ (hsame.symm.trans hid))

/-- A frame above all that is known links back to nothing yet, and nothing links back to it. -/
theorem Lowlinked.push {goal : Term} (h : Lowlinked frames states table)
    (hg : ProofGraph catalog frames states table)
    (hs : ∀ g, states' g = if g = goal then some (.inProgress frames.length table.size)
      else states g) :
    Lowlinked (frames ++ [Frame.start catalog frames.length goal table.size]) states'
      table.reserve.2 := by
  have old : ∀ (e : Edge) id k, e.Anchored table → e.LinksBack table.reserve.2 id →
      (e.LinksBack table id → NotBelow frames k id) →
      NotBelow (frames ++ [Frame.start catalog frames.length goal table.size]) k id := by
    intro e id k ha hl hold j f hf hid
    have hl := hl.of_extends hg.sound table.extends_reserve ha
    rcases getElem?_concat_cases hf with ⟨_, hf⟩ | ⟨_, rfl⟩
    · exact hold hl j f hf hid
    · exact absurd (hl.lt hg.sound ha) (Nat.not_lt_of_le (Nat.le_of_eq hid))
  refine ⟨?_, ?_⟩
  · intro g k p chain hp e he id hl
    have hold : states g = some (.provisional k (.ok p) chain) := by
      rw [hs] at hp
      split at hp
      · cases hp
      · exact hp
    obtain ⟨_, hrec, _⟩ := hg.warranted.provisional g k p chain hold
    exact old e id k (hg.sound.anchored _ p hrec e he) hl (h.provisional g k p chain hold e he id)
  · intro i f e id hf hpe hl
    rcases getElem?_concat_cases hf with ⟨_, hf⟩ | ⟨_, rfl⟩
    · exact old e id f.reach (hg.numbered.anchored i f e hf hpe) hl (h.pending i f e id hf hpe)
    · exact absurd hpe Frame.not_pending_start

theorem Lowlinked.progress {below : List Frame} {top top' : Frame}
    (h : Lowlinked (below ++ [top]) states table)
    (hin : ∀ g i id, states g = some (.inProgress i id) →
      ∃ f, (below ++ [top])[i]? = some f ∧ f.id = id)
    (hn : Numbered catalog (below ++ [top]) table)
    (hw : Warranted frames states table)
    (hp : top.Progress states below.length top') : Lowlinked (below ++ [top']) states table := by
  have same : ∀ (j : Nat) (f : Frame), (below ++ [top'])[j]? = some f →
      ∃ f₀, (below ++ [top])[j]? = some f₀ ∧ f.id = f₀.id := by
    intro j f hf
    rcases getElem?_concat_cases hf with ⟨_, hf⟩ | ⟨rfl, rfl⟩
    · exact ⟨f, getElem?_concat_below hf, rfl⟩
    · exact ⟨top, getElem?_concat_top, hp.same.2.1⟩
  refine ⟨?_, ?_⟩
  · intro g k p chain hg e he id hl
    exact (h.provisional g k p chain hg e he id hl).mono le_rfl same
  · intro i f e id hf hpe hl
    rcases getElem?_concat_cases hf with ⟨_, hf⟩ | ⟨rfl, rfl⟩
    · exact (h.pending i f e id (getElem?_concat_below hf) hpe hl).mono le_rfl same
    rcases hp.pending hpe with hold | ⟨r, low, hans, hr⟩
    · exact (h.pending _ top e id getElem?_concat_top hold hl).mono hp.reach_le same
    · -- A new edge rests on the frame that the answer names.
      refine NotBelow.mono (k := low) ?_ hr same
      obtain ⟨goal, link, deferrable⟩ := e
      cases hans with
      | @back _ id' hg _ =>
        obtain ⟨f₀, hf₀, rfl⟩ := hin _ _ _ hg
        cases hl with
        | back hl =>
          cases hl
          intro j f hf hid
          rcases Nat.lt_or_ge j low with hlt | hle
          · have hids := hn.ascending j low f f₀ hf hf₀ hlt
            rw [hid] at hids
            exact absurd hids (Nat.lt_irrefl _)
          · exact hle
        | built hl _ _ _ => cases hl
      | @provisional _ p chain hg =>
        obtain ⟨_, hrec, _⟩ := hw.provisional _ _ _ _ hg
        cases hl with
        | back hl => cases hl
        | built hl hq hm hl' =>
          cases hl
          obtain rfl := Option.some.inj (hrec.symm.trans hq)
          exact h.provisional _ _ _ _ hg _ hm id hl'
      | @resolved p _ hg _ =>
        obtain ⟨_, hrec, hwhole⟩ := hw.resolved _ _ hg
        cases hl with
        | back hl => cases hl
        | built hl hq hm hl' =>
          cases hl
          obtain rfl := Option.some.inj (hrec.symm.trans hq)
          obtain ⟨q, hfound⟩ := hwhole.fulfilled hm hl'
          intro j f hf hid
          have hnone := (hn.fresh j f hf).2
          rw [hid, hfound] at hnone
          cases hnone

theorem Lowlinked.refer (h : Lowlinked frames states table) (j : Nat) :
    Lowlinked (frames.modify j Frame.refer) states table := by
  have same : ∀ (i : Nat) (f : Frame), (frames.modify j Frame.refer)[i]? = some f →
      ∃ f₀, frames[i]? = some f₀ ∧ f.id = f₀.id := by
    intro i f hf
    obtain ⟨f₀, hf₀, ht⟩ := getElem?_refer hf
    exact ⟨f₀, hf₀, ht.id⟩
  refine ⟨?_, ?_⟩
  · intro g k p chain hg e he id hl
    exact (h.provisional g k p chain hg e he id hl).mono le_rfl same
  · intro i f e id hf hpe hl
    obtain ⟨f₀, hf₀, ht⟩ := getElem?_refer hf
    exact (h.pending i f₀ e id hf₀ (hpe.of_trails ht.trails) hl).mono ht.trails.reach_le same

/-- The end of a frame moves what rests on it to the frame that it rests on, and nothing that is still
under way is above that. -/
theorem Lowlinked.keep {s : Search} (h : Lowlinked s.stack s.ledger.get? s.table)
    (hg : ProofGraph catalog s.stack s.ledger.get? s.table) (ha : Aligned s.stack s.ledger.get?)
    (ht : s.top.trial = none) (hc : ¬s.top.IsCut)
    (ho : (s.verdict policy).isDepthExceeded = false) :
    Lowlinked ((s.keep (s.verdict policy)).2.modify (s.below.length - 1) (Frame.lower s.top.low))
      (s.keep (s.verdict policy)).1.get? (s.recorded policy) := by
  have extended := Search.extends_recorded policy hg.numbered
  have same : ∀ (j : Nat) (f : Frame), ((s.keep (s.verdict policy)).2.modify (s.below.length - 1)
      (Frame.lower s.top.low))[j]? = some f →
      j < s.below.length ∧ ∃ f₀, s.stack[j]? = some f₀ ∧ f.id = f₀.id := by
    intro j f hf
    obtain ⟨f₀, hf₀, hj, htr, _⟩ := Search.keep_lowered ha ho hf
    exact ⟨hj, f₀, hf₀, htr.id⟩
  refine ⟨?_, ?_⟩
  · intro g k p chain hp e he id hl
    by_cases hgoal : g = s.top.goal
    · rw [hgoal, Search.keep_top ho] at hp
      split at hp
      next hlow =>
        obtain ⟨rfl, hv, -⟩ : s.top.low = k ∧ s.verdict policy = .ok p ∧ _ = chain := by
          simpa using hp
        obtain ⟨_, _, _, hpending⟩ :=
          Search.verdict_ok (hg.numbered.sound _ s.top getElem?_concat_top) hv
        have hpe := hpending e he
        have hanchored := hg.numbered.anchored _ s.top e getElem?_concat_top hpe
        have hold := h.pending _ s.top e id getElem?_concat_top hpe
          (hl.of_extends hg.sound extended hanchored)
        rw [Search.reach_top ht] at hold
        exact hold.mono le_rfl fun j f hf => (same j f hf).2
      next => cases hv : s.verdict policy <;> rw [hv] at hp <;> cases hp
    · obtain ⟨k₀, hmoved, hst⟩ := Search.moved_of_keep ha hc ho hgoal hp
      obtain ⟨hold, _⟩ := Search.survives_of_spread ha ho hst
      obtain ⟨_, hrec, _⟩ := hg.warranted.provisional g k₀ p chain hold
      have hbound := h.provisional g k₀ p chain hold e he id
        (hl.of_extends hg.sound extended (hg.sound.anchored _ p hrec e he))
      rcases hmoved with ⟨rfl, _⟩ | ⟨rfl, _, _⟩
      · exact hbound.mono le_rfl fun j f hf => (same j f hf).2
      · intro j f hf hid
        obtain ⟨hj, f₀, hf₀, hsame⟩ := same j f hf
        exact absurd (hbound j f₀ hf₀ (hsame.symm.trans hid)) (Nat.not_le_of_lt hj)
  · intro i f e id hf hpe hl
    obtain ⟨f₀, hf₀, _, htr, _⟩ := Search.keep_lowered ha ho hf
    have hpe₀ := hpe.of_trails htr
    have hanchored := hg.numbered.anchored i f₀ e hf₀ hpe₀
    exact (h.pending i f₀ e id hf₀ hpe₀ (hl.of_extends hg.sound extended hanchored)).mono
      htr.reach_le fun j f hf => (same j f hf).2

theorem Lowlinked.cut {s : Search} (h : Lowlinked s.stack s.ledger.get? s.table)
    (hg : ProofGraph catalog s.stack s.ledger.get? s.table) (ha : Aligned s.stack s.ledger.get?)
    (ht : s.top.trial = none) {failure : Failure} (hf : failure.isDepthExceeded = true)
    (hcuts : Cuts (s.spread (.error failure)).get? s.top.low s.below frames) :
    Lowlinked frames (s.spread (.error failure)).get? s.table := by
  have hbelow : Lowlinked s.below (s.spread (.error failure)).get? s.table := by
    have same : ∀ (j : Nat) (f : Frame), s.below[j]? = some f →
        ∃ f₀, s.stack[j]? = some f₀ ∧ f.id = f₀.id := fun j f hfr =>
      ⟨f, getElem?_concat_below hfr, rfl⟩
    refine ⟨?_, ?_⟩
    · intro g k p chain hp e he id hl
      obtain ⟨hold, _⟩ := Search.cut_provisional ha hf hp
      exact (h.provisional g k p chain hold e he id hl).mono le_rfl same
    · intro i f e id hfr hpe hl
      exact (h.pending i f e id (getElem?_concat_below hfr) hpe hl).mono le_rfl same
  have hnumbered : Numbered catalog s.below s.table :=
    hg.numbered.trails fun i f hfr => ⟨f, getElem?_concat_below hfr, .rfl⟩
  have hin : ∀ g i id, (s.spread (.error failure)).get? g = some (.inProgress i id) →
      ∃ f, s.below[i]? = some f ∧ f.id = id := by
    intro g i id hst
    obtain ⟨hold, hi⟩ := (Search.cut_inProgress ha hf).mp hst
    obtain ⟨f, hfr, _, hid⟩ := ha.inProgress g i id hold
    rcases getElem?_concat_cases hfr with ⟨_, hfr⟩ | ⟨rfl, _⟩
    · exact ⟨f, hfr, hid⟩
    · exact absurd hi (Nat.lt_irrefl _)
  have hw := Search.warranted_cut ha hg.warranted ht hf hcuts
  generalize s.below = below at hcuts hbelow hnumbered hin
  cases hcuts with
  | last => exact hbelow
  | next _ hp _ => exact hbelow.progress hin hnumbered hw hp

end

/-- Searches keep what rests on a frame from linking back below it. -/
theorem lowlinked_invariant {catalog : Catalog} (policy : Policy) (hc : catalog.Indexed) :
    Invariant catalog policy fun _ frames states table =>
      ProofGraph catalog frames states table ∧ Lowlinked frames states table where
  nothing := ⟨.empty, by simp, by simp⟩
  forget h := ⟨h.1.forget, by simp, by simp⟩
  past h := h
  push _ h hg hs _ := ⟨h.1.push hc hg hs, h.2.push h.1 hs⟩
  progress ha h hp := by
    refine ⟨h.1.progress ha hp, h.2.progress (fun g i id hg => ?_) h.1.numbered h.1.warranted hp⟩
    obtain ⟨f, hf, _, hid⟩ := ha.inProgress g i id hg
    exact ⟨f, hf, hid⟩
  refer j h := ⟨h.1.refer j, h.2.refer j⟩
  keep ha h ht _ hcut ho := ⟨h.1.keep ha ht hcut ho, h.2.keep h.1 ha ht hcut ho⟩
  cut ha h ht _ _ _ hf hcuts := ⟨h.1.cut ha ht hf hcuts, h.2.cut h.1 ha ht hf hcuts⟩

section

variable {catalog : Catalog} {frames : List Frame} {states : States} {table : ProofTable}
  {k : Nat} {p q : Proof} {e : Edge}

/-- What a provisional success leads to is whole, or provisional on a frame that its own one leads to
by the frames that each of them rests on. -/
theorem ProofGraph.of_leads (h : ProofGraph catalog frames states table)
    (ha : Aligned frames states) {g : Term} {chain : GoalChain}
    (hp : states g = some (.provisional k (.ok p) chain))
    (hq : Relation.ReflTransGen table.Leads p q) :
    q.Whole table ∨ ∃ g k' chain, states g = some (.provisional k' (.ok q) chain) ∧
      Relation.ReflTransGen (Covers frames) k k' := by
  induction hq with
  | refl => exact .inr ⟨g, k, chain, hp, .refl⟩
  | @tail q r _ hstep ih =>
    obtain ⟨e, he, hr⟩ := hstep
    rcases ih with hwhole | ⟨g, k', chain, hq, hk⟩
    · obtain ⟨r', hr', _, hwhole'⟩ := hwhole.edge he
      obtain rfl := Option.some.inj (hr.symm.trans hr')
      exact .inl hwhole'
    obtain ⟨_, _, hbacked⟩ := h.warranted.provisional g k' q chain hq
    cases hbacked e he with
    | @resolved r' hst hid =>
      obtain ⟨_, hr', hwhole⟩ := h.warranted.resolved e.goal r' hst
      rw [hid, hr] at hr'
      obtain rfl := Option.some.inj hr'
      exact .inl hwhole
    | @provisional m r' c hst hid hm =>
      obtain ⟨_, hr', _⟩ := h.warranted.provisional e.goal m r' c hst
      rw [hid, hr] at hr'
      obtain rfl := Option.some.inj hr'
      exact .inr ⟨e.goal, m, c, hst, hk.tail hm⟩
    | @inProgress j id hst hid _ =>
      obtain ⟨f, hf, _, hfid⟩ := ha.inProgress e.goal j id hst
      have hnone := (h.numbered.fresh j f hf).2
      rw [hfid, hid, hr] at hnone
      cases hnone

/-- An edge without a proof leads to a frame of the stack. -/
theorem ProofGraph.frame_of_leads (h : ProofGraph catalog frames states table)
    (ha : Aligned frames states) {g : Term} {chain : GoalChain}
    (hp : states g = some (.provisional k (.ok p) chain))
    (hq : Relation.ReflTransGen table.Leads p q) (he : e ∈ q.edges)
    (hopen : table.get? e.link.target = none) :
    ∃ j f, frames[j]? = some f ∧ f.id = e.link.target ∧
      Relation.ReflTransGen (Covers frames) k j := by
  rcases h.of_leads ha hp hq with hwhole | ⟨g, k', chain, hst, hk⟩
  · obtain ⟨r, hr, _⟩ := hwhole.edge he
    cases hopen.symm.trans hr
  obtain ⟨_, _, hbacked⟩ := h.warranted.provisional g k' q chain hst
  cases hbacked e he with
  | @resolved r hst hid =>
    obtain ⟨_, hr, _⟩ := h.warranted.resolved e.goal r hst
    rw [hid, hopen] at hr
    cases hr
  | @provisional m r c hst hid _ =>
    obtain ⟨_, hr, _⟩ := h.warranted.provisional e.goal m r c hst
    rw [hid, hopen] at hr
    cases hr
  | @inProgress j id hst hid hj =>
    obtain ⟨f, hf, _, hfid⟩ := ha.inProgress e.goal j id hst
    exact ⟨j, f, hf, hfid.trans hid, hk.tail hj⟩

end

/-- Stack and ledger of a search agree. A back link without a proof, in a proof that a provisional
success is built from, is to a frame no lower than the one that the success rests on; one that is
reached by way of proofs found for earlier back links is to a frame that this one leads to. -/
structure Search.Agrees (catalog : Catalog) (s : Search) : Prop where
  distinct : (s.stack.map Frame.goal).Nodup
  underWay : ∀ g i id, s.ledger.get? g = some (.inProgress i id) ↔
    ∃ f, s.stack[i]? = some f ∧ f.goal = g ∧ f.id = id
  needed : ∀ (i : Nat) (f f' : Frame), s.stack[i]? = some f → s.stack[i + 1]? = some f' →
    ∃ t r, f.trial = some t ∧ t.rule ∈ catalog.rules ∧ unify f.goal t.rule.head = .ok t.subst ∧
      t.next? = some r ∧ t.subst.apply r.pattern = .ok f'.goal
  parked : ∀ g k outcome chain, s.ledger.get? g = some (.provisional k outcome chain) →
    k < s.stack.length ∧ ∃ f, s.stack[k]? = some f ∧ g ∈ f.parked
  promised : ∀ g k p chain, s.ledger.get? g = some (.provisional k (.ok p) chain) →
    ∀ e ∈ p.edges, ∀ id, e.LinksBack s.table id → s.table.get? id = none →
      ∃ j f, s.stack[j]? = some f ∧ f.id = id ∧ k ≤ j
  led : ∀ g k p chain, s.ledger.get? g = some (.provisional k (.ok p) chain) →
    ∀ q, Relation.ReflTransGen s.table.Leads p q → ∀ e ∈ q.edges,
      s.table.get? e.link.target = none → ∃ j f, s.stack[j]? = some f ∧ f.id = e.link.target ∧
        Relation.ReflTransGen (Covers s.stack) k j
  inBounds : ∀ g i id, s.ledger.get? g = some (.inProgress i id) → i < s.stack.length
  lowInBounds : ∀ (i : Nat) (f : Frame), s.stack[i]? = some f →
    f.low ≤ i ∧ ∀ t, f.trial = some t → t.low ≤ i

theorem Search.agrees_of_lowlinked {catalog : Catalog} {s : Search}
    (ha : Aligned s.stack s.ledger.get?)
    (hg : ProofGraph catalog s.stack s.ledger.get? s.table)
    (hl : Lowlinked s.stack s.ledger.get? s.table) : s.Agrees catalog where
  distinct := ha.goals_nodup
  underWay g i id := by
    refine ⟨ha.inProgress g i id, ?_⟩
    rintro ⟨f, hf, rfl, rfl⟩
    exact ha.framed i f hf
  needed i f f' hf hf' := by
    obtain ⟨t, r, ht, hr, happ⟩ := ha.waiting i f f' hf hf'
    obtain ⟨hmem, hu, _⟩ := (hg.numbered.sound i f hf).trial t ht
    exact ⟨t, r, ht, hmem, hu, hr, happ⟩
  parked g k outcome chain hst := by
    obtain ⟨f, hf, hm⟩ := ha.provisional g k outcome chain hst
    exact ⟨(List.getElem?_eq_some_iff.mp hf).1, f, hf, hm⟩
  promised g k p chain hst e he id hback hopen := by
    obtain ⟨q, hq, e', he', rfl⟩ := hback.leads he
    obtain ⟨j, f, hf, hid, _⟩ := hg.frame_of_leads ha hst hq he' hopen
    exact ⟨j, f, hf, hid, hl.provisional g k p chain hst e he _ hback j f hf hid⟩
  led g k p chain hst q hq e he hopen := hg.frame_of_leads ha hst hq he hopen
  inBounds g i id hst := by
    obtain ⟨f, hf, _⟩ := ha.inProgress g i id hst
    exact (List.getElem?_eq_some_iff.mp hf).1
  lowInBounds i f hf := ⟨ha.low i f hf, fun t ht => ha.trialLow i f t hf ht⟩

/-- At every state of every search of a session, stack and ledger agree. -/
theorem stack_agrees {clauses : List (String × Clause)} {catalog : Catalog} {policy : Policy}
    {V : Type} {past reached : List Search} {prover : Prover V} {s : Search}
    (hb : Catalog.build clauses = .ok catalog) (hs : Session catalog policy past prover)
    (hreached : Course catalog policy (.idle prover.known) reached (.searching s)) :
    s.Agrees catalog := by
  have inv := lowlinked_invariant policy (Catalog.build_indexed hb)
  obtain ⟨_, _, hlearnt⟩ := hs.learnt
  obtain ⟨hidle, hknown⟩ := inv.kept.learnt hlearnt
  obtain ⟨haligned, hgraph, hlinked⟩ := hreached.carried inv.toCarried [] hidle hknown
  exact Search.agrees_of_lowlinked haligned hgraph hlinked

/-- The door is built from the sill and links back to the wall, the sill to the floor, and the floor
to the roof. -/
def house : List (String × Clause) :=
  [("p", ⟨"roof", .const "Roof", [⟨.const "Wall", false⟩]⟩),
    ("p", ⟨"wall", .const "Wall", [⟨.const "Floor", false⟩]⟩),
    ("p", ⟨"floor", .const "Floor", [⟨.const "Door", false⟩, ⟨.const "Roof", true⟩]⟩),
    ("p", ⟨"door", .const "Door", [⟨.const "Sill", false⟩, ⟨.const "Wall", true⟩]⟩),
    ("p", ⟨"sill", .const "Sill", [⟨.const "Floor", true⟩]⟩)]

def houseCatalog : Catalog where
  rules := [⟨0, "p::roof", .const "Roof", [⟨.const "Wall", false⟩]⟩,
    ⟨1, "p::wall", .const "Wall", [⟨.const "Floor", false⟩]⟩,
    ⟨2, "p::floor", .const "Floor", [⟨.const "Door", false⟩, ⟨.const "Roof", true⟩]⟩,
    ⟨3, "p::door", .const "Door", [⟨.const "Sill", false⟩, ⟨.const "Wall", true⟩]⟩,
    ⟨4, "p::sill", .const "Sill", [⟨.const "Floor", true⟩]⟩]
  index := [("Roof", [0]), ("Wall", [1]), ("Floor", [2]), ("Door", [3]), ("Sill", [4])]
  arities := [("Roof", 0), ("Wall", 0), ("Floor", 0), ("Door", 0), ("Sill", 0)]

theorem build_house : Catalog.build house = .ok houseCatalog := by decide

/-- The frame that a provisional state rests on. -/
def GoalState.low? : GoalState → Option Nat
  | .provisional low _ _ => some low
  | _ => none

theorem GoalState.exists_of_low? {state : GoalState} {k : Nat} {test : Proof → Bool}
    (h : (decide (state.low? = some k) &&
      state.outcome?.any fun outcome => outcome.toOption.any test) = true) :
    ∃ p chain, state = .provisional k (.ok p) chain ∧ test p = true := by
  obtain ⟨hlow, htest⟩ := Bool.and_eq_true_iff.mp h
  have hk := of_decide_eq_true hlow
  cases state with
  | provisional low outcome chain =>
    cases hk
    cases outcome with
    | ok p => exact ⟨p, chain, rfl, htest⟩
    | error f => cases htest
  | inProgress i id => cases hk
  | resolved p => cases hk
  | failed f => cases hk

/-- While the floor is searched, the door rests on the wall, which is on the frame below. -/
theorem house_agrees : ∃ past, ∃ prover : Prover Unit, ∃ reached s p chain,
    Session houseCatalog Policy.default past prover ∧
    Course houseCatalog Policy.default (.idle prover.known) reached (.searching s) ∧
    s.stack.map Frame.goal = [.const "Roof", .const "Wall", .const "Floor"] ∧
    s.ledger.get? (.const "Door") = some (.provisional 1 (.ok p) chain) ∧ s.Agrees houseCatalog := by
  have hany : (Knowledge.empty.trace houseCatalog Policy.default 20 (.const "Roof")).any (fun e =>
      decide (e.stack.map Frame.goal = [.const "Roof", .const "Wall", .const "Floor"]) &&
      (e.ledger.get? (.const "Door")).any fun state => decide (state.low? = some 1) &&
        state.outcome?.any fun outcome => outcome.toOption.any fun _ => true) = true := by
    decide +kernel
  obtain ⟨s, hmem, hall⟩ := List.any_eq_true.mp hany
  obtain ⟨hstack, hdoor⟩ := Bool.and_eq_true_iff.mp hall
  obtain ⟨state, hstate, hdoor⟩ := (Option.any_eq_true _ _).mp hdoor
  obtain ⟨p, chain, rfl, _⟩ := GoalState.exists_of_low? hdoor
  obtain ⟨reached, hreached⟩ := Course.rest.of_mem_trace hmem
  have hs : Session houseCatalog Policy.default [] (.start houseCatalog Policy.default) :=
    .start (V := Unit)
  have hagrees := stack_agrees build_house hs hreached
  exact ⟨[], _, reached, s, p, chain, hs, hreached, of_decide_eq_true hstack, hstate, hagrees⟩

/-- All that a provisional success leads to, also by way of proofs found for back links, is open only
towards frames no lower than the one that the success rests on. -/
def Search.OpenAbove (s : Search) : Prop :=
  ∀ g k p chain, s.ledger.get? g = some (.provisional k (.ok p) chain) →
    ∀ q, Relation.ReflTransGen s.table.Leads p q → ∀ e ∈ q.edges,
      s.table.get? e.link.target = none →
        ∃ j f, s.stack[j]? = some f ∧ f.id = e.link.target ∧ k ≤ j

/-- The sluice links back to the dam, and the dam to the mill. The shaft is too deep for the bound. -/
def mill : List (String × Clause) :=
  [("p", ⟨"mill_wheel", .const "Mill", [⟨.const "Wheel", false⟩]⟩),
    ("p", ⟨"mill_sluice", .const "Mill", [⟨.const "Sluice", false⟩]⟩),
    ("p", ⟨"wheel", .const "Wheel", [⟨.const "Dam", false⟩, ⟨.const "Shaft", false⟩]⟩),
    ("p", ⟨"dam_sluice", .const "Dam", [⟨.const "Sluice", false⟩, ⟨.const "Gate", false⟩]⟩),
    ("p", ⟨"dam_mill", .const "Dam", [⟨.const "Mill", true⟩]⟩),
    ("p", ⟨"sluice_wheel", .const "Sluice", [⟨.const "Wheel", true⟩, ⟨.const "Gate", false⟩]⟩),
    ("p", ⟨"sluice_dam", .const "Sluice", [⟨.const "Dam", true⟩]⟩),
    ("p", ⟨"shaft", .const "Shaft", [⟨.const "Gear", false⟩]⟩),
    ("p", ⟨"gear", .const "Gear", [⟨.const "Pinion", false⟩]⟩),
    ("p", ⟨"pinion", .const "Pinion", [⟨.const "Tooth", false⟩]⟩),
    ("p", ⟨"tooth", .const "Tooth", []⟩)]

def millCatalog : Catalog where
  rules := [⟨0, "p::mill_wheel", .const "Mill", [⟨.const "Wheel", false⟩]⟩,
    ⟨1, "p::mill_sluice", .const "Mill", [⟨.const "Sluice", false⟩]⟩,
    ⟨2, "p::wheel", .const "Wheel", [⟨.const "Dam", false⟩, ⟨.const "Shaft", false⟩]⟩,
    ⟨3, "p::dam_sluice", .const "Dam", [⟨.const "Sluice", false⟩, ⟨.const "Gate", false⟩]⟩,
    ⟨4, "p::dam_mill", .const "Dam", [⟨.const "Mill", true⟩]⟩,
    ⟨5, "p::sluice_wheel", .const "Sluice", [⟨.const "Wheel", true⟩, ⟨.const "Gate", false⟩]⟩,
    ⟨6, "p::sluice_dam", .const "Sluice", [⟨.const "Dam", true⟩]⟩,
    ⟨7, "p::shaft", .const "Shaft", [⟨.const "Gear", false⟩]⟩,
    ⟨8, "p::gear", .const "Gear", [⟨.const "Pinion", false⟩]⟩,
    ⟨9, "p::pinion", .const "Pinion", [⟨.const "Tooth", false⟩]⟩,
    ⟨10, "p::tooth", .const "Tooth", []⟩]
  index := [("Mill", [0, 1]), ("Wheel", [2]), ("Dam", [3, 4]), ("Sluice", [5, 6]), ("Shaft", [7]),
    ("Gear", [8]), ("Pinion", [9]), ("Tooth", [10])]
  arities := [("Mill", 0), ("Wheel", 0), ("Sluice", 0), ("Dam", 0), ("Shaft", 0), ("Gate", 0),
    ("Gear", 0), ("Pinion", 0), ("Tooth", 0)]

theorem build_mill : Catalog.build mill = .ok millCatalog := by decide

/-- The proof leads in one step to one with an open edge, to a search that no frame from `k` on is
for. -/
def Search.leadsBelow (s : Search) (k : Nat) (p : Proof) : Bool :=
  p.edges.any fun e => (s.table.get? e.link.target).any fun q => q.edges.any fun e' =>
    (s.table.get? e'.link.target).isNone && (s.stack.drop k).all fun f => f.id != e'.link.target

theorem Search.not_openAbove {s : Search} {g : Term} {k : Nat} {p : Proof} {chain : GoalChain}
    (hp : s.ledger.get? g = some (.provisional k (.ok p) chain)) (h : s.leadsBelow k p = true) :
    ¬s.OpenAbove := by
  intro habove
  obtain ⟨e, he, h⟩ := List.any_eq_true.mp h
  obtain ⟨q, hq, h⟩ := (Option.any_eq_true _ _).mp h
  obtain ⟨e', he', h⟩ := List.any_eq_true.mp h
  obtain ⟨hopen, hframes⟩ := Bool.and_eq_true_iff.mp h
  obtain ⟨j, f, hf, hid, hkj⟩ := habove g k p chain hp q (.single ⟨e, he, hq⟩) e' he'
    (Option.isNone_iff_eq_none.mp hopen)
  have hmem : f ∈ s.stack.drop k := by
    refine List.mem_of_getElem? (i := j - k) ?_
    rw [List.getElem?_drop, Nat.add_sub_cancel' hkj]
    exact hf
  have hne := List.all_eq_true.mp hframes f hmem
  rw [hid] at hne
  simp at hne

/-- The sluice was found while the dam was under way, and rests on the wheel. Once the dam has a proof,
it leads to the mill, which is on the frame below. -/
theorem mill_open_below : Catalog.build mill = .ok millCatalog ∧ ∃ reached s p chain,
    Course millCatalog ⟨some 5, .strict⟩ (.idle Knowledge.empty) reached (.searching s) ∧
    s.stack.map Frame.goal = [.const "Mill", .const "Wheel"] ∧
    s.ledger.get? (.const "Sluice") = some (.provisional 1 (.ok p) chain) ∧ ¬s.OpenAbove := by
  have hany : (Knowledge.empty.trace millCatalog ⟨some 5, .strict⟩ 30 (.const "Mill")).any (fun e =>
      decide (e.stack.map Frame.goal = [.const "Mill", .const "Wheel"]) &&
      (e.ledger.get? (.const "Sluice")).any fun state => decide (state.low? = some 1) &&
        state.outcome?.any fun outcome => outcome.toOption.any (e.leadsBelow 1)) = true := by
    decide +kernel
  obtain ⟨s, hmem, hall⟩ := List.any_eq_true.mp hany
  obtain ⟨hstack, hsluice⟩ := Bool.and_eq_true_iff.mp hall
  obtain ⟨state, hstate, hsluice⟩ := (Option.any_eq_true _ _).mp hsluice
  obtain ⟨p, chain, rfl, hbelow⟩ := GoalState.exists_of_low? hsluice
  obtain ⟨reached, hreached⟩ := Course.rest.of_mem_trace hmem
  exact ⟨build_mill, reached, s, p, chain, hreached, of_decide_eq_true hstack, hstate,
    Search.not_openAbove hstate hbelow⟩

end Clausal
