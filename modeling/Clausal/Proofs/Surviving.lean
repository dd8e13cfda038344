import Clausal.Proofs.Backing

namespace Clausal

namespace Search

variable {catalog : Catalog} {policy : Policy} {s : Search}

/-- An edge survives the end of the top frame when the frame's failure, if it fails, does not reach
the edge's goal. -/
def Survives (s : Search) (outcome : Outcome) (e : Edge) : Prop :=
  ∀ f, outcome = .error f → ¬s.Affected false e.goal

theorem reach_top (ht : s.top.trial = none) : s.top.reach = s.top.low := by
  simp [Frame.reach, ht]

theorem inProgress_top (h : Aligned s.stack s.ledger.get?) {g : Term} {id : ProofId}
    (hg : s.ledger.get? g = some (.inProgress s.below.length id)) :
    g = s.top.goal ∧ id = s.top.id := by
  obtain ⟨f, hf, hgoal, hid⟩ := h.inProgress g _ id hg
  rcases getElem?_concat_cases hf with ⟨hi, _⟩ | ⟨_, rfl⟩
  · omega
  · exact ⟨hgoal.symm, hid.symm⟩

theorem le_of_inProgress (h : Aligned s.stack s.ledger.get?) {g : Term} {j : Nat} {id : ProofId}
    (hg : s.ledger.get? g = some (.inProgress j id)) : j ≤ s.below.length := by
  obtain ⟨f, hf, _⟩ := h.inProgress g j id hg
  rcases getElem?_concat_cases hf with ⟨hi, _⟩ | ⟨rfl, _⟩ <;> omega

theorem le_of_provisional (h : Aligned s.stack s.ledger.get?) {g : Term} {k : Nat} {o : Outcome}
    {chain : GoalChain} (hg : s.ledger.get? g = some (.provisional k o chain)) :
    k ≤ s.below.length := by
  obtain ⟨f, hf, _⟩ := h.provisional g k o chain hg
  rcases getElem?_concat_cases hf with ⟨hi, _⟩ | ⟨rfl, _⟩ <;> omega

theorem mem_parked_of_provisional (h : Aligned s.stack s.ledger.get?) {g : Term} {k : Nat}
    {o : Outcome} {chain : GoalChain} (hg : s.ledger.get? g = some (.provisional k o chain)) :
    g ∈ s.top.parked ++ s.below.flatMap Frame.parked := by
  obtain ⟨f, hf, hm⟩ := h.provisional g k o chain hg
  exact mem_parked_of_getElem? hf hm

/-- A success that is still one after a failure has spread leads to nothing that failed. -/
theorem survives_of_spread (h : Aligned s.stack s.ledger.get?) {outcome : Outcome}
    (ho : outcome.isDepthExceeded = false) {g : Term} {k : Nat} {p : Proof} {chain : GoalChain}
    (hg : (s.spread outcome).get? g = some (.provisional k (.ok p) chain)) :
    s.ledger.get? g = some (.provisional k (.ok p) chain) ∧ ∀ e ∈ p.edges, s.Survives outcome e := by
  have hold : s.ledger.get? g = some (.provisional k (.ok p) chain) := by
    rcases spread_cases ho g with hs | ⟨k', p', c, f, _, _, _, i, e, _, hs⟩
    · exact hs.symm.trans hg
    · rw [hs] at hg
      simp at hg
  refine ⟨hold, fun e he f hf ha => ?_⟩
  subst hf
  have hga : s.Affected false g := .leads (mem_parked_of_provisional h hold) hold he ha
  rcases Ledger.get?_spreadFailure_of_affected ho hga with ⟨_, rfl | ⟨_, _, _, hp⟩⟩ |
    ⟨_, _, _, _, _, _, _, hp⟩
  · rw [top_framed h] at hold
    cases hold
  · cases hold.symm.trans hp
  · cases hg.symm.trans hp

/-- What an edge leads to stays in the ledger when the top frame ends, or moves with what rests on
that frame. -/
theorem backed_keep (h : Aligned s.stack s.ledger.get?) (hc : ¬s.top.IsCut)
    (ho : (s.verdict policy).isDepthExceeded = false) {within within' : Nat → Prop} {e : Edge}
    (hb : e.Backed s.ledger.get? within) (hs : s.Survives (s.verdict policy) e)
    (hother : ∀ k, within k → k < s.below.length → within' k)
    (hmoved : within s.below.length → s.top.low < s.below.length → within' s.top.low) :
    e.Backed (s.keep (s.verdict policy)).1.get? within' := by
  have same : ∀ {state}, s.ledger.get? e.goal = some state →
      (s.spread (s.verdict policy)).get? e.goal = some state := by
    intro state hg
    rcases spread_cases ho e.goal with he | ⟨k, p, c, f, hv, ha, _⟩
    · exact he.trans hg
    · exact absurd ha (hs f hv)
  cases hb with
  | @resolved q hg hid =>
    have hne : e.goal ≠ s.top.goal := by
      intro he
      rw [he, top_framed h] at hg
      cases hg
    apply Edge.Backed.resolved _ hid
    rw [keep_states h hc ho hne, same hg]
    rfl
  | @provisional k q chain hg hid hk =>
    have hne : e.goal ≠ s.top.goal := by
      intro he
      rw [he, top_framed h] at hg
      cases hg
    have hkept := keep_states h hc ho hne
    rw [same hg] at hkept
    by_cases hn : k = s.below.length
    · subst hn
      by_cases hlow : s.top.low < s.below.length
      · exact .provisional (by simpa [GoalState.close?, hlow] using hkept) hid (hmoved hk hlow)
      · refine .resolved (q := q) ?_ hid
        simpa [GoalState.close?, hlow, GoalState.confirm?] using hkept
    · have hlt : k < s.below.length := by
        have := le_of_provisional h hg
        omega
      exact .provisional (by simpa [GoalState.close?, hn] using hkept) hid (hother k hk hlt)
  | @inProgress j id hg hid hj =>
    -- A back link to the top frame is met by the frame's own proof, so it needs one to survive.
    by_cases hgoal : e.goal = s.top.goal
    · rw [hgoal, top_framed h] at hg
      obtain ⟨rfl, rfl⟩ : s.below.length = j ∧ s.top.id = id := by simpa using hg
      cases hv : s.verdict policy with
      | error f => exact absurd (hgoal ▸ Ledger.Affected.goal) (hs f hv)
      | ok p =>
        have hpid : p.id = s.top.id := by
          obtain ⟨_, w, _, rfl⟩ := Frame.outcome_ok hv
          rfl
        have hkept := keep_top (s := s) ho
        rw [hv, ← hgoal] at hkept
        by_cases hlow : s.top.low < s.below.length
        · rw [if_pos hlow] at hkept
          exact .provisional hkept (hpid.trans hid) (hmoved hj hlow)
        · rw [if_neg hlow] at hkept
          exact .resolved hkept (hpid.trans hid)
    · have hlt : j < s.below.length := by
        have hle := le_of_inProgress h hg
        rcases Nat.lt_or_eq_of_le hle with hlt | rfl
        · exact hlt
        · exact absurd (inProgress_top h hg).1 hgoal
      have hkept := keep_states h hc ho hgoal
      rw [same hg] at hkept
      exact .inProgress hkept hid (hother j hj hlt)

/-- The failure of the top frame reaches no success that was found before the frame was started. -/
theorem not_affected_of_older (h : Aligned s.stack s.ledger.get?)
    (hn : Numbered catalog s.stack s.table) (hw : Warranted s.stack s.ledger.get? s.table)
    {g : Term} (ha : s.Affected false g) {k : Nat} {p : Proof} {chain : GoalChain}
    (hg : s.ledger.get? g = some (.provisional k (.ok p) chain)) : ¬p.id < s.top.id := by
  unfold Affected at ha
  induction ha generalizing k p chain with
  | goal => simp [top_framed h] at hg
  | own hcut _ => cases hcut
  | failure _ he => simp [he] at hg
  | @leads g low p' chain' e _ hp' he ha ih =>
    obtain ⟨-, rfl, -⟩ : low = k ∧ p' = p ∧ chain' = chain := by simpa using hp'.symm.trans hg
    intro hlt
    obtain ⟨_, htable, hb⟩ := hw.provisional _ _ _ _ hp'
    have htarget := hn.older _ s.top _ p' e getElem?_concat_top htable hlt he
    cases hb e he with
    | @resolved q hq hid =>
      rcases Ledger.affected_cases ha with hgoal | ⟨hcut, _⟩ | ⟨_, _, _, _, hprov⟩
      · rw [hgoal, top_framed h] at hq
        cases hq
      · cases hcut
      · cases hq.symm.trans hprov
    | @provisional k' q c hq hid _ => exact ih hq (hid ▸ htarget)
    | @inProgress j id hj hid _ =>
      rcases Ledger.affected_cases ha with hgoal | ⟨hcut, _⟩ | ⟨_, _, _, _, hprov⟩
      · rw [hgoal, top_framed h] at hj
        obtain ⟨-, rfl⟩ : s.below.length = j ∧ s.top.id = id := by simpa using hj
        exact absurd (hid ▸ htarget) (Nat.lt_irrefl _)
      · cases hcut
      · cases hj.symm.trans hprov

/-- Edges pending below the top frame outlive its failure: what they lead to came before it. -/
theorem survives_of_pending (h : Aligned s.stack s.ledger.get?)
    (hn : Numbered catalog s.stack s.table) (hw : Warranted s.stack s.ledger.get? s.table) {i : Nat}
    {f : Frame} {e : Edge} (hf : s.stack[i]? = some f) (hi : i < s.below.length)
    (hc : ¬CutFrom s.stack i) (he : f.Pending e) (outcome : Outcome) : s.Survives outcome e := by
  intro _ _ ha
  cases hw.pending i f e hf hc he with
  | @resolved q hq _ =>
    rcases Ledger.affected_cases ha with hgoal | ⟨hcut, _⟩ | ⟨_, _, _, _, hprov⟩
    · rw [hgoal, top_framed h] at hq
      cases hq
    · cases hcut
    · cases hq.symm.trans hprov
  | @provisional k q chain hq hid _ =>
    have hlt := hn.earlier i _ f s.top e hf getElem?_concat_top hi he
    exact not_affected_of_older h hn hw ha hq (hid ▸ hlt)
  | @inProgress j id hj _ hle =>
    rcases Ledger.affected_cases ha with hgoal | ⟨hcut, _⟩ | ⟨_, _, _, _, hprov⟩
    · rw [hgoal, top_framed h] at hj
      obtain ⟨rfl, -⟩ : s.below.length = j ∧ s.top.id = id := by simpa using hj
      omega
    · cases hcut
    · cases hj.symm.trans hprov

/-- The proof of the top frame, if it has one, has the frame's number and goal. -/
theorem verdict_ok (hs : s.top.Sound catalog) {p : Proof} (hv : s.verdict policy = .ok p) :
    p.id = s.top.id ∧ p.goal = s.top.goal ∧ (∃ r subst, p.Fits catalog r subst) ∧
      ∀ e ∈ p.edges, s.top.Pending e :=
  hs.fits hv

theorem recorded_of_ok {p : Proof} (hv : s.verdict policy = .ok p) :
    s.recorded policy = s.table.record p := by
  simp [recorded, hv]

theorem recorded_of_error {f : Failure} (hv : s.verdict policy = .error f) :
    s.recorded policy = s.table := by
  simp [recorded, hv]

theorem extends_recorded (policy : Policy) (hn : Numbered catalog s.stack s.table) :
    s.table.Extends (s.recorded policy) := by
  cases hv : s.verdict policy with
  | error f =>
    rw [recorded_of_error hv]
    exact ⟨le_rfl, fun _ _ hp => hp⟩
  | ok p =>
    obtain ⟨hid, _⟩ := verdict_ok (hn.sound _ s.top getElem?_concat_top) hv
    obtain ⟨hlt, hnone⟩ := hn.fresh _ s.top getElem?_concat_top
    rw [recorded_of_ok hv]
    exact ProofTable.extends_record (hid ▸ hlt) (hid ▸ hnone)

theorem get?_recorded (hn : Numbered catalog s.stack s.table) {p : Proof}
    (hv : s.verdict policy = .ok p) : (s.recorded policy).get? p.id = some p := by
  obtain ⟨hid, _⟩ := verdict_ok (hn.sound _ s.top getElem?_concat_top) hv
  obtain ⟨hlt, hnone⟩ := hn.fresh _ s.top getElem?_concat_top
  rw [recorded_of_ok hv, ProofTable.get?_record (hid ▸ hlt) (hid ▸ hnone), if_pos rfl]

theorem sound_recorded (hs : s.table.Sound catalog) (hn : Numbered catalog s.stack s.table) :
    (s.recorded policy).Sound catalog := by
  cases hv : s.verdict policy with
  | error f =>
    rw [recorded_of_error hv]
    exact hs
  | ok p =>
    obtain ⟨hid, _, hfits, hedges⟩ := verdict_ok (hn.sound _ s.top getElem?_concat_top) hv
    obtain ⟨hlt, hnone⟩ := hn.fresh _ s.top getElem?_concat_top
    rw [recorded_of_ok hv]
    exact hs.record (hid ▸ hlt) (hid ▸ hnone) hfits fun e he =>
      hn.anchored _ s.top e getElem?_concat_top (hedges e he)

theorem numbered_recorded (hn : Numbered catalog s.stack s.table) {frames : List Frame}
    (ht : ∀ (i : Nat) (f : Frame), frames[i]? = some f →
      ∃ f₀, s.stack[i]? = some f₀ ∧ i < s.below.length ∧ f.Trails f₀) :
    Numbered catalog frames (s.recorded policy) := by
  have hlow : Numbered catalog frames s.table := hn.trails fun i f hf => by
    obtain ⟨f₀, hf₀, _, htr⟩ := ht i f hf
    exact ⟨f₀, hf₀, htr⟩
  cases hv : s.verdict policy with
  | error f =>
    rw [recorded_of_error hv]
    exact hlow
  | ok p =>
    obtain ⟨hid, _⟩ := verdict_ok (hn.sound _ s.top getElem?_concat_top) hv
    obtain ⟨hlt, hnone⟩ := hn.fresh _ s.top getElem?_concat_top
    rw [recorded_of_ok hv]
    refine hlow.record (hid ▸ hlt) (hid ▸ hnone) fun i f hf => ?_
    obtain ⟨f₀, hf₀, hi, htr⟩ := ht i f hf
    rw [htr.id, hid]
    exact hn.ascending i _ f₀ s.top hf₀ getElem?_concat_top hi

/-- The proofs that are final once the top frame ends, when it rests on no frame below it: those
that were, the frame's own, and the successes that rest on the frame and survive. -/
def Final (policy : Policy) (s : Search) (q : Proof) : Prop :=
  q.Whole s.table ∨ s.verdict policy = .ok q ∨
    ∃ g chain, s.ledger.get? g = some (.provisional s.below.length (.ok q) chain) ∧
      ∀ e ∈ q.edges, s.Survives (s.verdict policy) e

theorem final_edge (h : Aligned s.stack s.ledger.get?) (hn : Numbered catalog s.stack s.table)
    (hw : Warranted s.stack s.ledger.get? s.table)
    (ho : (s.verdict policy).isDepthExceeded = false) {within : Nat → Prop} {e : Edge}
    (hb : e.Backed s.ledger.get? within) (hs : s.Survives (s.verdict policy) e)
    (hwithin : ∀ k, within k → s.below.length ≤ k) :
    ∃ q, (s.recorded policy).get? e.link.target = some q ∧ q.goal = e.goal ∧ s.Final policy q := by
  have he := extends_recorded policy hn
  cases hb with
  | @resolved q hg hid =>
    obtain ⟨hgoal, hq, hwhole⟩ := hw.resolved _ q hg
    exact ⟨q, hid ▸ he.get? _ q hq, hgoal, .inl hwhole⟩
  | @provisional k q chain hg hid hk =>
    obtain ⟨hgoal, hq, _⟩ := hw.provisional _ k q chain hg
    obtain rfl : k = s.below.length := by
      have := le_of_provisional h hg
      have := hwithin k hk
      omega
    have hsame : (s.spread (s.verdict policy)).get? e.goal =
        some (.provisional s.below.length (.ok q) chain) := by
      rcases spread_cases ho e.goal with heq | ⟨_, _, _, f, hv, ha, _⟩
      · exact heq.trans hg
      · exact absurd ha (hs f hv)
    exact ⟨q, hid ▸ he.get? _ q hq, hgoal,
      .inr (.inr ⟨_, _, hg, (survives_of_spread h ho hsame).2⟩)⟩
  | @inProgress j id hg hid hj =>
    obtain rfl : j = s.below.length := by
      have := le_of_inProgress h hg
      have := hwithin j hj
      omega
    obtain ⟨hgoal, rfl⟩ := inProgress_top h hg
    cases hv : s.verdict policy with
    | error f => exact absurd (hgoal ▸ Ledger.Affected.goal) (hs f hv)
    | ok p =>
      obtain ⟨hpid, hpgoal, _⟩ := verdict_ok (hn.sound _ s.top getElem?_concat_top) hv
      refine ⟨p, ?_, hpgoal.trans hgoal.symm, .inr (.inl hv)⟩
      rw [← hid, ← hpid]
      exact get?_recorded hn hv

theorem whole_of_final (h : Aligned s.stack s.ledger.get?) (hn : Numbered catalog s.stack s.table)
    (hw : Warranted s.stack s.ledger.get? s.table) (ht : s.top.trial = none) (hc : ¬s.top.IsCut)
    (ho : (s.verdict policy).isDepthExceeded = false) (hlow : s.below.length ≤ s.top.low)
    {q : Proof} (hq : s.Final policy q) : q.Whole (s.recorded policy) := by
  have he := extends_recorded policy hn
  apply Proof.whole_of_closed (s.Final policy) _ hq
  rintro q (hq | hv | ⟨g, chain, hg, hs⟩) e hm
  · obtain ⟨q', hq', hgoal, hwhole⟩ := hq.edge hm
    exact ⟨q', he.get? _ q' hq', hgoal, .inl hwhole⟩
  · obtain ⟨_, _, _, hpending⟩ := verdict_ok (hn.sound _ s.top getElem?_concat_top) hv
    have hb := hw.pending _ s.top e getElem?_concat_top (not_cutFrom_top hc) (hpending e hm)
    apply final_edge h hn hw ho hb
    · intro f hf
      rw [hv] at hf
      cases hf
    · rintro k ⟨hk, _⟩
      rw [reach_top ht] at hk
      omega
  · obtain ⟨_, _, hb⟩ := hw.provisional g _ q chain hg
    apply final_edge h hn hw ho (hb e hm) (hs e hm)
    rintro k (hk | ⟨j, f, hj, hf, hk⟩)
    · exact hk
    · rcases getElem?_concat_cases hf with ⟨hi, _⟩ | ⟨_, rfl⟩
      · omega
      · rw [reach_top ht] at hk
        omega

/-- How the frame that a goal rests on changes when the top frame ends: what rested on the top frame
rests on the frame that this one rests on. -/
def Moved (s : Search) (k k' : Nat) : Prop :=
  k = k' ∧ k < s.below.length ∨ k = s.below.length ∧ k' = s.top.low ∧ s.top.low < s.below.length

theorem moved_of_keep (h : Aligned s.stack s.ledger.get?) (hc : ¬s.top.IsCut) {outcome : Outcome}
    (ho : outcome.isDepthExceeded = false) {g : Term} (hne : g ≠ s.top.goal) {k' : Nat}
    {o : Outcome} {chain : GoalChain}
    (hg : (s.keep outcome).1.get? g = some (.provisional k' o chain)) :
    ∃ k, s.Moved k k' ∧ (s.spread outcome).get? g = some (.provisional k o chain) := by
  rw [keep_states h hc ho hne] at hg
  obtain ⟨state, hst, hcl⟩ := Option.bind_eq_some_iff.mp hg
  rcases GoalState.close?_provisional hcl with ⟨rfl, hk⟩ | ⟨rfl, hlow, rfl⟩
  · obtain ⟨o', hold⟩ := spread_provisional ho hst
    have := le_of_provisional h hold
    exact ⟨k', .inl ⟨rfl, by omega⟩, hst⟩
  · exact ⟨_, .inr ⟨rfl, rfl, hlow⟩, hst⟩

/-- What covers a frame of the stack covers it once the top frame has ended, also from the frame to
which what rests on the top one moves. -/
theorem covers_keep (h : Aligned s.stack s.ledger.get?) (ht : s.top.trial = none)
    (ho : (s.verdict policy).isDepthExceeded = false) {k k' m : Nat} (hk : s.Moved k k')
    (hm : Covers s.stack k m ∨ s.top.low ≤ m) :
    Covers ((s.keep (s.verdict policy)).2.modify (s.below.length - 1) (Frame.lower s.top.low))
      k' m := by
  have lowered : k < s.below.length → s.top.low ≤ m →
      Covers ((s.keep (s.verdict policy)).2.modify (s.below.length - 1)
        (Frame.lower s.top.low)) k m := by
    intro hlt hle
    have hb : s.below[s.below.length - 1]? = some s.below[s.below.length - 1] := by simp
    obtain ⟨f, hf⟩ := exists_keep_lowered (s := s) ho hb
    obtain ⟨_, _, _, _, hr⟩ := keep_lowered h ho hf
    exact .inr ⟨_, f, by omega, hf, le_trans (hr (by omega)) hle⟩
  have top_reach := reach_top ht
  rcases hk with ⟨rfl, hlt⟩ | ⟨rfl, rfl, hlow⟩
  · rcases hm with (hm | ⟨j, f, hj, hf, hr⟩) | hm
    · exact .inl hm
    · rcases getElem?_concat_cases hf with ⟨_, hf⟩ | ⟨_, rfl⟩
      · obtain ⟨f', hf'⟩ := exists_keep_lowered (s := s) ho hf
        obtain ⟨f₀, hf₀, _, htr, _⟩ := keep_lowered h ho hf'
        obtain rfl := Option.some.inj (hf₀.symm.trans (getElem?_concat_below hf))
        exact .inr ⟨j, f', hj, hf', le_trans htr.reach_le hr⟩
      · exact lowered hlt (by omega)
    · exact lowered hlt hm
  · rcases hm with (hm | ⟨j, f, hj, hf, hr⟩) | hm
    · exact .inl (by omega)
    · rcases getElem?_concat_cases hf with ⟨hi, _⟩ | ⟨_, rfl⟩
      · omega
      · exact .inl (by omega)
    · exact .inl hm

/-- What covers the top frame is not below it, or not below what the frame rests on. -/
theorem le_of_covers_top (ht : s.top.trial = none) {k : Nat}
    (h : Covers s.stack s.below.length k) : s.below.length ≤ k ∨ s.top.low ≤ k := by
  rcases h with hle | ⟨j, f, hj, hf, hr⟩
  · exact .inl hle
  · rcases getElem?_concat_cases hf with ⟨hi, _⟩ | ⟨_, rfl⟩
    · exact absurd hj (Nat.not_le_of_lt hi)
    · rw [reach_top ht] at hr
      exact .inr hr

theorem warranted_keep_resolved (h : Aligned s.stack s.ledger.get?)
    (hn : Numbered catalog s.stack s.table) (hw : Warranted s.stack s.ledger.get? s.table)
    (ht : s.top.trial = none) (hc : ¬s.top.IsCut)
    (ho : (s.verdict policy).isDepthExceeded = false) {g : Term} {p : Proof}
    (hg : (s.keep (s.verdict policy)).1.get? g = some (.resolved p)) :
    p.goal = g ∧ (s.recorded policy).get? p.id = some p ∧ p.Whole (s.recorded policy) := by
  have he := extends_recorded policy hn
  by_cases hgoal : g = s.top.goal
  · rw [hgoal, keep_top ho] at hg
    split at hg
    · cases hg
    next hlow =>
      cases hv : s.verdict policy with
      | error f =>
        rw [hv] at hg
        cases hg
      | ok q =>
        rw [hv] at hg
        obtain rfl : q = p := by simpa [finalState] using hg
        obtain ⟨_, hqgoal, _⟩ := verdict_ok (hn.sound _ s.top getElem?_concat_top) hv
        exact ⟨hqgoal.trans hgoal.symm, get?_recorded hn hv,
          whole_of_final h hn hw ht hc ho (by omega) (.inr (.inl hv))⟩
  · rw [keep_states h hc ho hgoal] at hg
    obtain ⟨state, hst, hcl⟩ := Option.bind_eq_some_iff.mp hg
    rcases GoalState.close?_resolved hcl with rfl | ⟨chain, rfl, hlow⟩
    · have hold : s.ledger.get? g = some (.resolved p) := by
        rcases spread_cases ho g with hs | ⟨_, _, _, _, _, _, _, _, _, _, hs⟩
        · exact hs.symm.trans hst
        · cases hst.symm.trans hs
      obtain ⟨hpgoal, hp, hwhole⟩ := hw.resolved g p hold
      exact ⟨hpgoal, he.get? _ p hp, hwhole.extends he⟩
    · obtain ⟨hold, hs⟩ := survives_of_spread h ho hst
      obtain ⟨hpgoal, hp, _⟩ := hw.provisional g _ p chain hold
      exact ⟨hpgoal, he.get? _ p hp,
        whole_of_final h hn hw ht hc ho (by omega) (.inr (.inr ⟨g, chain, hold, hs⟩))⟩

theorem warranted_keep_provisional (h : Aligned s.stack s.ledger.get?)
    (hn : Numbered catalog s.stack s.table) (hw : Warranted s.stack s.ledger.get? s.table)
    (ht : s.top.trial = none) (hc : ¬s.top.IsCut)
    (ho : (s.verdict policy).isDepthExceeded = false) {g : Term} {k : Nat} {p : Proof}
    {chain : GoalChain}
    (hg : (s.keep (s.verdict policy)).1.get? g = some (.provisional k (.ok p) chain)) :
    p.goal = g ∧ (s.recorded policy).get? p.id = some p ∧
      ∀ e ∈ p.edges, e.Backed (s.keep (s.verdict policy)).1.get?
        (Covers ((s.keep (s.verdict policy)).2.modify (s.below.length - 1)
          (Frame.lower s.top.low)) k) := by
  have he := extends_recorded policy hn
  by_cases hgoal : g = s.top.goal
  · rw [hgoal, keep_top ho] at hg
    split at hg
    next hlow =>
      obtain ⟨rfl, hv, -⟩ : s.top.low = k ∧ s.verdict policy = .ok p ∧ _ = chain := by
        simpa using hg
      obtain ⟨_, hpgoal, _, hpending⟩ := verdict_ok (hn.sound _ s.top getElem?_concat_top) hv
      refine ⟨hpgoal.trans hgoal.symm, get?_recorded hn hv, fun e hm => ?_⟩
      have hb := hw.pending _ s.top e getElem?_concat_top (not_cutFrom_top hc) (hpending e hm)
      apply backed_keep h hc ho hb
      · intro f hf
        rw [hv] at hf
        cases hf
      · rintro m ⟨hm, _⟩ _
        rw [reach_top ht] at hm
        exact .inl hm
      · exact fun _ _ => .inl le_rfl
    next => cases hv : s.verdict policy <;> rw [hv] at hg <;> cases hg
  · obtain ⟨k₀, hk, hst⟩ := moved_of_keep h hc ho hgoal hg
    obtain ⟨hold, hs⟩ := survives_of_spread h ho hst
    obtain ⟨hpgoal, hp, hb⟩ := hw.provisional g k₀ p chain hold
    refine ⟨hpgoal, he.get? _ p hp, fun e hm => ?_⟩
    apply backed_keep h hc ho (hb e hm) (hs e hm)
    · exact fun m hcov _ => covers_keep h ht ho hk (.inl hcov)
    · exact fun _ _ => covers_keep h ht ho hk (.inr le_rfl)

theorem warranted_keep (h : Aligned s.stack s.ledger.get?) (hn : Numbered catalog s.stack s.table)
    (hw : Warranted s.stack s.ledger.get? s.table) (ht : s.top.trial = none) (hc : ¬s.top.IsCut)
    (ho : (s.verdict policy).isDepthExceeded = false) :
    Warranted ((s.keep (s.verdict policy)).2.modify (s.below.length - 1) (Frame.lower s.top.low))
      (s.keep (s.verdict policy)).1.get? (s.recorded policy) := by
  refine ⟨fun g p hg => warranted_keep_resolved h hn hw ht hc ho hg,
    fun g k p chain hg => warranted_keep_provisional h hn hw ht hc ho hg, ?_⟩
  intro i f e hf hcut hpe
  obtain ⟨f₀, hf₀, hi, htr, _⟩ := keep_lowered h ho hf
  have hcut₀ := not_cutFrom_lowered ho hc hcut
  have hpe₀ := hpe.of_trails htr
  have hb := hw.pending i f₀ e hf₀ hcut₀ hpe₀
  apply backed_keep h hc ho hb (survives_of_pending h hn hw hf₀ hi hcut₀ hpe₀ _)
  · exact fun k hk _ => ⟨le_trans htr.reach_le hk.1, hk.2⟩
  · rintro ⟨_, hle⟩ _
    omega

theorem warranted_cut (h : Aligned s.stack s.ledger.get?)
    (hw : Warranted s.stack s.ledger.get? s.table) (ht : s.top.trial = none) {failure : Failure}
    (hf : failure.isDepthExceeded = true) {frames : List Frame}
    (hcuts : Cuts (s.spread (.error failure)).get? s.top.low s.below frames) :
    Warranted frames (s.spread (.error failure)).get? s.table := by
  have old : ∀ {g state}, (s.spread (.error failure)).get? g = some state →
      ¬s.Affected true g ∧ s.ledger.get? g = some state := by
    intro g state hg
    rcases cut_states (s := s) hf g with ⟨_, hn⟩ | ⟨hn, hs⟩
    · rw [hn] at hg
      cases hg
    · exact ⟨hn, hs.symm.trans hg⟩
  refine ⟨?_, ?_, ?_⟩
  · intro g p hg
    exact hw.resolved g p (old hg).2
  · intro g k p chain hg
    obtain ⟨hn, hold⟩ := old hg
    obtain ⟨_, f, hfr, _⟩ := cut_provisional h hf hg
    have hk := (List.getElem?_eq_some_iff.mp hfr).1
    obtain ⟨hpgoal, hp, hb⟩ := hw.provisional g k p chain hold
    refine ⟨hpgoal, hp, fun e hm => ?_⟩
    have hsame : (s.spread (.error failure)).get? e.goal = s.ledger.get? e.goal := by
      rcases cut_states (s := s) hf e.goal with ⟨ha, _⟩ | ⟨_, hs⟩
      · exact absurd (.leads (mem_parked_of_provisional h hold) hold hm ha) hn
      · exact hs
    refine ((hb e hm).congr hsame).mono fun m hcov => ?_
    rcases hcov with hle | ⟨j, f', hj, hf', hr⟩
    · exact .inl hle
    · rcases getElem?_concat_cases hf' with ⟨_, hf'⟩ | ⟨_, rfl⟩
      · obtain ⟨f'', hf'', hle, _⟩ := hcuts.later hf'
        exact .inr ⟨j, f'', hj, hf'', le_trans hle hr⟩
      · have hlast : s.below[s.below.length - 1]? = some s.below[s.below.length - 1] := by simp
        obtain ⟨f'', hf'', _, hle⟩ := hcuts.later hlast
        rw [reach_top ht] at hr
        exact .inr ⟨_, f'', by omega, hf'', le_trans (hle (by omega)) hr⟩
  · intro i f e hfr hcut
    exact absurd (hcuts.earlier hfr).1 hcut

end Search

end Clausal
