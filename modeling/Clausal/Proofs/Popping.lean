import Clausal.Proofs.Alignment

namespace Clausal

namespace Search

variable {s : Search}

/-- The goals that the failure of the top frame reaches. -/
def Affected (s : Search) (cut : Bool) : Term → Prop :=
  s.ledger.Affected cut s.top.goal s.top.parked (s.below.flatMap Frame.parked)

theorem mem_parked_of_getElem? {i : Nat} {f : Frame} {g : Term} (hf : s.stack[i]? = some f)
    (hg : g ∈ f.parked) : g ∈ s.top.parked ++ s.below.flatMap Frame.parked := by
  rcases getElem?_concat_cases hf with ⟨_, hf⟩ | ⟨rfl, rfl⟩
  · exact List.mem_append_right _ (List.mem_flatMap.mpr ⟨f, List.mem_of_getElem? hf, hg⟩)
  · exact List.mem_append_left _ hg

/-- A failure that is not due to the depth bound only turns affected successes into failures. -/
theorem spread_cases {outcome : Outcome} (ho : outcome.isDepthExceeded = false) (g : Term) :
    (s.spread outcome).get? g = s.ledger.get? g ∨
      ∃ k p chain f, outcome = .error f ∧ s.Affected false g ∧
        s.ledger.get? g = some (.provisional k (.ok p) chain) ∧ ∃ i e, p.edges[i]? = some e ∧
          (s.spread outcome).get? g =
            some (.provisional k (.error (Spread.convert f g chain p i e.goal)) chain) := by
  cases outcome with
  | ok p => exact .inl rfl
  | error f =>
    have hf : f.isDepthExceeded = false := ho
    by_cases ha : s.Affected false g
    · rcases Ledger.get?_spreadFailure_of_affected hf ha with ⟨he, _⟩ | ⟨k, p, chain, i, e, hp, hi, he⟩
      · exact .inl he
      · exact .inr ⟨k, p, chain, f, rfl, ha, hp, i, e, hi, he⟩
    · exact .inl (Ledger.get?_spreadFailure_of_not_affected (by rw [hf]; exact ha))

theorem not_cutFrom_top (hc : ¬s.top.IsCut) : ¬CutFrom s.stack s.below.length := by
  rintro ⟨j, f, hj, hf, hcut⟩
  rcases getElem?_concat_cases hf with ⟨hi, _⟩ | ⟨_, rfl⟩
  · omega
  · exact hc hcut

/-- The goals parked on the top frame are the provisional ones that rest on it. -/
theorem mem_top_parked (h : Aligned s.stack s.ledger.get?) (hc : ¬s.top.IsCut)
    {outcome : Outcome} (ho : outcome.isDepthExceeded = false) {g : Term} :
    g ∈ s.top.parked ↔
      ∃ o chain, (s.spread outcome).get? g = some (.provisional s.below.length o chain) := by
  constructor
  · intro hg
    obtain ⟨o, chain, he⟩ := h.parked _ s.top g getElem?_concat_top (not_cutFrom_top hc) hg
    rcases spread_cases ho g with hs | ⟨k, p, c, f, _, _, hp, i, e, _, hs⟩
    · exact ⟨o, chain, hs.trans he⟩
    · obtain ⟨rfl, -, rfl⟩ : s.below.length = k ∧ o = .ok p ∧ chain = c := by
        simpa using he.symm.trans hp
      exact ⟨_, _, hs⟩
  · rintro ⟨o, chain, he⟩
    have hp : ∃ o chain, s.ledger.get? g = some (.provisional s.below.length o chain) := by
      rcases spread_cases ho g with hs | ⟨k, p, c, f, _, _, hp, i, e, _, hs⟩
      · exact ⟨o, chain, hs.symm.trans he⟩
      · obtain ⟨rfl, -, -⟩ : s.below.length = k ∧ _ := by simpa using he.symm.trans hs
        exact ⟨_, _, hp⟩
    obtain ⟨o, chain, hp⟩ := hp
    obtain ⟨f, hf, hm⟩ := h.provisional g _ o chain hp
    rcases getElem?_concat_cases hf with ⟨hi, _⟩ | ⟨_, rfl⟩
    · omega
    · exact hm

/-- Closing the top frame changes the states that rest on it, and no others. -/
theorem keep_states (h : Aligned s.stack s.ledger.get?) (hc : ¬s.top.IsCut) {outcome : Outcome}
    (ho : outcome.isDepthExceeded = false) {g : Term} (hg : g ≠ s.top.goal) :
    (s.keep outcome).1.get? g = ((s.spread outcome).get? g).bind
      (GoalState.close? s.below.length s.top.low outcome.succeeded) := by
  have hm := mem_top_parked h hc ho (g := g)
  by_cases hlow : s.top.low < s.below.length
  · rw [(keep_of_provisional ho hlow).2, if_neg hg]
    split
    next hp =>
      obtain ⟨o, chain, he⟩ := hm.mp hp
      simp [he, GoalState.restOn, GoalState.close?, hlow]
    next hp =>
      cases he : (s.spread outcome).get? g with
      | none => rfl
      | some state =>
        cases state with
        | provisional k o chain =>
          have hk : k ≠ s.below.length := by
            rintro rfl
            exact hp (hm.mpr ⟨o, chain, he⟩)
          simp [GoalState.close?, hk]
        | _ => rfl
  · rw [(keep_of_final ho hlow).2, if_neg hg]
    split
    next hp =>
      obtain ⟨o, chain, he⟩ := hm.mp hp
      simp [he, GoalState.close?, hlow]
    next hp =>
      cases he : (s.spread outcome).get? g with
      | none => rfl
      | some state =>
        cases state with
        | provisional k o chain =>
          have hk : k ≠ s.below.length := by
            rintro rfl
            exact hp (hm.mpr ⟨o, chain, he⟩)
          simp [GoalState.close?, hk]
        | _ => rfl

theorem keep_top {outcome : Outcome} (ho : outcome.isDepthExceeded = false) :
    (s.keep outcome).1.get? s.top.goal =
      some (if s.top.low < s.below.length then
        .provisional s.top.low outcome (s.below.map Frame.goal) else finalState outcome) := by
  by_cases hlow : s.top.low < s.below.length
  · rw [(keep_of_provisional ho hlow).2, if_pos rfl, if_pos hlow]
  · rw [(keep_of_final ho hlow).2, if_pos rfl, if_neg hlow]

/-- The frames below a closed one stay, except that one of them may get goals parked on it. -/
theorem keep_frames {outcome : Outcome} (ho : outcome.isDepthExceeded = false) {i : Nat}
    {f : Frame} (hf : (s.keep outcome).2[i]? = some f) :
    ∃ f₀, s.below[i]? = some f₀ ∧ (¬(s.top.low < s.below.length ∧ i = s.top.low) ∧ f = f₀ ∨
      s.top.low < s.below.length ∧ i = s.top.low ∧
        f = f₀.park (s.top.goal :: s.top.parked)) := by
  by_cases hlow : s.top.low < s.below.length
  · rw [(keep_of_provisional ho hlow).1] at hf
    obtain ⟨f₀, hf₀, ⟨hi, he⟩ | ⟨hi, he⟩⟩ := getElem?_park hf
    · exact ⟨f₀, hf₀, .inl ⟨fun hh => hi hh.2, he⟩⟩
    · exact ⟨f₀, hf₀, .inr ⟨hlow, hi, he⟩⟩
  · rw [(keep_of_final ho hlow).1] at hf
    exact ⟨f, hf, .inl ⟨fun hh => hlow hh.1, rfl⟩⟩

theorem exists_keep_frames {outcome : Outcome} (ho : outcome.isDepthExceeded = false) {i : Nat}
    {f₀ : Frame} (hf : s.below[i]? = some f₀) :
    ∃ f, (s.keep outcome).2[i]? = some f ∧
      (¬(s.top.low < s.below.length ∧ i = s.top.low) ∧ f = f₀ ∨
        s.top.low < s.below.length ∧ i = s.top.low ∧
          f = f₀.park (s.top.goal :: s.top.parked)) := by
  by_cases hlow : s.top.low < s.below.length
  · rw [(keep_of_provisional ho hlow).1]
    obtain ⟨f, hf', ⟨hi, he⟩ | ⟨hi, he⟩⟩ := exists_getElem?_park
      (s.top.goal :: s.top.parked) s.top.low hf
    · exact ⟨f, hf', .inl ⟨fun hh => hi hh.2, he⟩⟩
    · exact ⟨f, hf', .inr ⟨hlow, hi, he⟩⟩
  · rw [(keep_of_final ho hlow).1]
    exact ⟨f₀, hf, .inl ⟨fun hh => hlow hh.1, rfl⟩⟩

/-- A frame below a closed one is the same but for the goals parked on it. -/
theorem keep_frames_same {outcome : Outcome} (ho : outcome.isDepthExceeded = false) {i : Nat}
    {f : Frame} (hf : (s.keep outcome).2[i]? = some f) :
    ∃ f₀, s.stack[i]? = some f₀ ∧ i < s.below.length ∧ f.goal = f₀.goal ∧ f.id = f₀.id ∧
      f.low = f₀.low ∧ f.trial = f₀.trial ∧ f.remaining = f₀.remaining ∧
      f.successes = f₀.successes ∧ f.attempted = f₀.attempted := by
  obtain ⟨f₀, hf₀, hcase⟩ := keep_frames ho hf
  refine ⟨f₀, getElem?_concat_below hf₀, (List.getElem?_eq_some_iff.mp hf₀).1, ?_⟩
  rcases hcase with ⟨_, rfl⟩ | ⟨_, _, rfl⟩ <;> exact ⟨rfl, rfl, rfl, rfl, rfl, rfl, rfl⟩

theorem keep_lowered (h : Aligned s.stack s.ledger.get?) {outcome : Outcome}
    (ho : outcome.isDepthExceeded = false) {i : Nat} {f : Frame}
    (hf : ((s.keep outcome).2.modify (s.below.length - 1) (Frame.lower s.top.low))[i]? = some f) :
    ∃ f₀, s.stack[i]? = some f₀ ∧ i < s.below.length ∧ f.Trails f₀ ∧
      (i + 1 = s.below.length → f.reach ≤ s.top.low) := by
  obtain ⟨f₁, hf₁, hcase⟩ := getElem?_lower hf
  obtain ⟨f₀, hf₀, hi, hgoal, hid, hlow, htrial, hremaining, hsuccesses, hattempted⟩ :=
    keep_frames_same ho hf₁
  refine ⟨f₀, hf₀, hi, ?_, ?_⟩
  · rcases hcase with ⟨_, rfl⟩ | ⟨_, rfl⟩
    · exact ⟨hgoal, hid, hremaining, hlow, hsuccesses, hattempted, fun hn => htrial.trans hn,
        fun t₀ ht => ⟨t₀, htrial.trans ht, rfl, rfl, rfl, le_rfl⟩⟩
    · refine ⟨hgoal, hid, hremaining, hlow, hsuccesses, hattempted, fun hn => ?_, fun t₀ ht => ?_⟩
      · simp [Frame.lower, htrial, hn]
      · refine ⟨{ t₀ with low := min t₀.low s.top.low }, ?_, rfl, rfl, rfl, min_le_left _ _⟩
        simp [Frame.lower, htrial, ht]
  · intro hlast
    obtain ⟨t, r, ht, _, _⟩ := h.waiting i f₀ s.top hf₀ (hlast ▸ getElem?_concat_top)
    rcases hcase with ⟨hne, _⟩ | ⟨_, rfl⟩
    · omega
    · simp [Frame.reach, Frame.lower, htrial, ht]

theorem keep_lowered_trialLow {outcome : Outcome} (ho : outcome.isDepthExceeded = false) {i : Nat}
    {f f₀ : Frame} {t : Trial} (hf₀ : s.stack[i]? = some f₀)
    (hf : ((s.keep outcome).2.modify (s.below.length - 1) (Frame.lower s.top.low))[i]? = some f)
    (ht : f.trial = some t) : ∃ t₀, f₀.trial = some t₀ ∧
      (t.low = t₀.low ∨ i + 1 = s.below.length ∧ t.low = min t₀.low s.top.low) := by
  obtain ⟨f₁, hf₁, hcase⟩ := getElem?_lower hf
  obtain ⟨f₂, hf₂, hi, _, _, _, htrial, _⟩ := keep_frames_same ho hf₁
  obtain rfl := Option.some.inj (hf₂.symm.trans hf₀)
  rcases hcase with ⟨_, rfl⟩ | ⟨hlast, rfl⟩
  · exact ⟨t, htrial ▸ ht, .inl rfl⟩
  · obtain ⟨t₀, ht₀, rfl⟩ := Option.map_eq_some_iff.mp ht
    exact ⟨t₀, htrial ▸ ht₀, .inr ⟨by omega, rfl⟩⟩

theorem exists_keep_lowered {outcome : Outcome} (ho : outcome.isDepthExceeded = false) {i : Nat}
    {f₀ : Frame} (hf : s.below[i]? = some f₀) :
    ∃ f, ((s.keep outcome).2.modify (s.below.length - 1) (Frame.lower s.top.low))[i]? = some f := by
  obtain ⟨f₁, hf₁, _⟩ := exists_keep_frames ho hf
  obtain ⟨f, hf', _⟩ := exists_getElem?_lower s.top.low (s.below.length - 1) hf₁
  exact ⟨f, hf'⟩

theorem not_cutFrom_stack {outcome : Outcome} (ho : outcome.isDepthExceeded = false)
    (hc : ¬s.top.IsCut) {i : Nat} (hn : ¬CutFrom (s.keep outcome).2 i) : ¬CutFrom s.stack i := by
  rintro ⟨j, f, hj, hf, hcut⟩
  rcases getElem?_concat_cases hf with ⟨_, hf⟩ | ⟨_, rfl⟩
  · obtain ⟨f', hf', hcase⟩ := exists_keep_frames ho hf
    refine hn ⟨j, f', hj, hf', ?_⟩
    rcases hcase with ⟨_, rfl⟩ | ⟨_, _, rfl⟩ <;> exact hcut
  · exact hc hcut

theorem not_cutFrom_lowered {outcome : Outcome} (ho : outcome.isDepthExceeded = false)
    (hc : ¬s.top.IsCut) {i : Nat}
    (hn : ¬CutFrom ((s.keep outcome).2.modify (s.below.length - 1) (Frame.lower s.top.low)) i) :
    ¬CutFrom s.stack i :=
  not_cutFrom_stack ho hc fun hcut => hn hcut.lower

theorem spread_inProgress {outcome : Outcome} (ho : outcome.isDepthExceeded = false) {g : Term}
    {i : Nat} {id : ProofId} :
    (s.spread outcome).get? g = some (.inProgress i id) ↔
      s.ledger.get? g = some (.inProgress i id) := by
  rcases spread_cases ho g with hs | ⟨k, p, c, f, _, _, hp, i, e, _, hs⟩
  · rw [hs]
  · simp [hs, hp]

/-- A provisional state rests on the same frame before and after the spread of a failure. -/
theorem spread_provisional {outcome : Outcome} (ho : outcome.isDepthExceeded = false) {g : Term}
    {k : Nat} {o : Outcome} {chain : GoalChain}
    (h : (s.spread outcome).get? g = some (.provisional k o chain)) :
    ∃ o', s.ledger.get? g = some (.provisional k o' chain) := by
  rcases spread_cases ho g with hs | ⟨k', p, c, f, _, _, hp, i, e, _, hs⟩
  · exact ⟨o, hs.symm.trans h⟩
  · obtain ⟨rfl, -, rfl⟩ : k = k' ∧ o = _ ∧ chain = c := by simpa using h.symm.trans hs
    exact ⟨_, hp⟩

theorem spread_of_provisional {outcome : Outcome} (ho : outcome.isDepthExceeded = false) {g : Term}
    {k : Nat} {o : Outcome} {chain : GoalChain}
    (h : s.ledger.get? g = some (.provisional k o chain)) :
    ∃ o', (s.spread outcome).get? g = some (.provisional k o' chain) := by
  rcases spread_cases ho g with hs | ⟨k', p, c, f, _, _, hp, i, e, _, hs⟩
  · exact ⟨o, hs.trans h⟩
  · obtain ⟨rfl, -, rfl⟩ : k = k' ∧ o = _ ∧ chain = c := by simpa using h.symm.trans hp
    exact ⟨_, hs⟩

theorem top_framed (h : Aligned s.stack s.ledger.get?) :
    s.ledger.get? s.top.goal = some (.inProgress s.below.length s.top.id) :=
  h.framed _ s.top getElem?_concat_top

theorem goal_ne_top (h : Aligned s.stack s.ledger.get?) {i : Nat} {f : Frame}
    (hf : s.stack[i]? = some f) (hi : i < s.below.length) : f.goal ≠ s.top.goal := by
  intro he
  have hst := h.framed i f hf
  rw [he, top_framed h] at hst
  obtain ⟨hn, -⟩ : s.below.length = i ∧ _ := by simpa using hst
  omega

theorem keep_inProgress (h : Aligned s.stack s.ledger.get?) (hc : ¬s.top.IsCut) {outcome : Outcome}
    (ho : outcome.isDepthExceeded = false) {g : Term} {i : Nat} {id : ProofId}
    (he : (s.keep outcome).1.get? g = some (.inProgress i id)) :
    g ≠ s.top.goal ∧ s.ledger.get? g = some (.inProgress i id) := by
  by_cases hg : g = s.top.goal
  · rw [hg, keep_top ho] at he
    split at he
    · cases he
    · cases outcome <;> cases he
  · refine ⟨hg, ?_⟩
    rw [keep_states h hc ho hg] at he
    obtain ⟨state, hst, hcl⟩ := Option.bind_eq_some_iff.mp he
    rw [GoalState.close?_inProgress hcl] at hst
    exact (spread_inProgress ho).mp hst

/-- What is provisional once the top frame has closed rested on a frame below, or rests on the
frame that the top one rests on. -/
theorem keep_provisional (h : Aligned s.stack s.ledger.get?) (hc : ¬s.top.IsCut)
    {outcome : Outcome} (ho : outcome.isDepthExceeded = false) {g : Term} {k : Nat} {o : Outcome}
    {chain : GoalChain} (he : (s.keep outcome).1.get? g = some (.provisional k o chain)) :
    (k ≠ s.below.length ∧ ∃ o', s.ledger.get? g = some (.provisional k o' chain)) ∨
      (s.top.low < s.below.length ∧ k = s.top.low ∧ g ∈ s.top.goal :: s.top.parked) := by
  by_cases hg : g = s.top.goal
  · subst hg
    rw [keep_top ho] at he
    split at he
    next hl =>
      cases he
      exact .inr ⟨hl, rfl, List.mem_cons_self⟩
    next => cases outcome <;> cases he
  · rw [keep_states h hc ho hg] at he
    obtain ⟨state, hst, hcl⟩ := Option.bind_eq_some_iff.mp he
    rcases GoalState.close?_provisional hcl with ⟨rfl, hk⟩ | ⟨rfl, hl, rfl⟩
    · exact .inl ⟨hk, spread_provisional ho hst⟩
    · exact .inr ⟨hl, rfl, List.mem_cons_of_mem _ ((mem_top_parked h hc ho).mpr ⟨_, _, hst⟩)⟩

/-- The goals that come to be parked on the frame that the top one rests on are provisional. -/
theorem keep_parked (h : Aligned s.stack s.ledger.get?) (hc : ¬s.top.IsCut) {outcome : Outcome}
    (ho : outcome.isDepthExceeded = false) (hl : s.top.low < s.below.length) {g : Term}
    (hm : g ∈ s.top.goal :: s.top.parked) :
    ∃ o chain, (s.keep outcome).1.get? g = some (.provisional s.top.low o chain) := by
  by_cases hg : g = s.top.goal
  · subst hg
    exact ⟨_, _, by rw [keep_top ho, if_pos hl]⟩
  · obtain ⟨o, chain, hst⟩ := (mem_top_parked h hc ho).mp ((List.mem_cons.mp hm).resolve_left hg)
    refine ⟨o, chain, ?_⟩
    rw [keep_states h hc ho hg, hst]
    simp [GoalState.close?, hl]

theorem keep_of_provisional_below (h : Aligned s.stack s.ledger.get?) (hc : ¬s.top.IsCut)
    {outcome : Outcome} (ho : outcome.isDepthExceeded = false) {g : Term} {k : Nat} {o : Outcome}
    {chain : GoalChain} (hk : k < s.below.length)
    (he : s.ledger.get? g = some (.provisional k o chain)) :
    ∃ o', (s.keep outcome).1.get? g = some (.provisional k o' chain) := by
  have hg : g ≠ s.top.goal := by
    rintro rfl
    cases (top_framed h).symm.trans he
  obtain ⟨o', hst⟩ := spread_of_provisional ho he
  refine ⟨o', ?_⟩
  rw [keep_states h hc ho hg, hst]
  simp [GoalState.close?, Nat.ne_of_lt hk]

theorem aligned_keep (h : Aligned s.stack s.ledger.get?) (hc : ¬s.top.IsCut) {outcome : Outcome}
    (ho : outcome.isDepthExceeded = false) :
    Aligned (s.keep outcome).2 (s.keep outcome).1.get? := by
  refine ⟨?_, ?_, ?_, ?_, ?_, ?_, ?_, ?_⟩
  · intro i f hf
    obtain ⟨f₀, hf₀, hi, hgoal, hid, _⟩ := keep_frames_same ho hf
    rw [hgoal, hid, keep_states h hc ho (goal_ne_top h hf₀ hi),
      (spread_inProgress ho).mpr (h.framed i f₀ hf₀)]
    rfl
  · intro g i id he
    obtain ⟨hg, hst⟩ := keep_inProgress h hc ho he
    obtain ⟨f₀, hf₀, hfg, hfi⟩ := h.inProgress g i id hst
    rcases getElem?_concat_cases hf₀ with ⟨_, hf₀⟩ | ⟨_, rfl⟩
    · obtain ⟨f, hf, hcase⟩ := exists_keep_frames ho hf₀
      refine ⟨f, hf, ?_⟩
      rcases hcase with ⟨_, rfl⟩ | ⟨_, _, rfl⟩ <;> exact ⟨hfg, hfi⟩
    · exact absurd hfg.symm hg
  · intro g k o chain he
    rcases keep_provisional h hc ho he with ⟨hk, o', hp⟩ | ⟨hl, rfl, hm⟩
    · obtain ⟨f₀, hf₀, hm⟩ := h.provisional g k o' chain hp
      rcases getElem?_concat_cases hf₀ with ⟨_, hf₀⟩ | ⟨hn, _⟩
      · obtain ⟨f, hf, hcase⟩ := exists_keep_frames ho hf₀
        refine ⟨f, hf, ?_⟩
        rcases hcase with ⟨_, rfl⟩ | ⟨_, _, rfl⟩
        · exact hm
        · exact List.mem_append_left _ hm
      · exact absurd hn hk
    · have hb : s.below[s.top.low]? = some s.below[s.top.low] := by simp
      obtain ⟨f, hf, ⟨hn, _⟩ | ⟨_, _, rfl⟩⟩ := exists_keep_frames ho hb
      · exact absurd ⟨hl, rfl⟩ hn
      · exact ⟨_, hf, List.mem_append_right _ hm⟩
  · intro i f g hf hn hm
    obtain ⟨f₀, hf₀, hcase⟩ := keep_frames ho hf
    have hi := (List.getElem?_eq_some_iff.mp hf₀).1
    have old : g ∈ f₀.parked → ∃ o chain, (s.keep outcome).1.get? g =
        some (.provisional i o chain) := by
      intro hm
      obtain ⟨o, chain, he⟩ := h.parked i f₀ g (getElem?_concat_below hf₀)
        (not_cutFrom_stack ho hc hn) hm
      obtain ⟨o', he'⟩ := keep_of_provisional_below h hc ho hi he
      exact ⟨o', chain, he'⟩
    rcases hcase with ⟨_, rfl⟩ | ⟨hl, rfl, rfl⟩
    · exact old hm
    · rcases List.mem_append.mp hm with hm | hm
      · exact old hm
      · exact keep_parked h hc ho hl hm
  · intro i j f f' g hf hf' hji hm
    obtain ⟨f₀, hf₀, hcase⟩ := keep_frames ho hf
    obtain ⟨f₁, hf₁, hj, hgoal, _⟩ := keep_frames_same ho hf'
    rw [hgoal]
    rcases hcase with ⟨_, rfl⟩ | ⟨hl, rfl, rfl⟩
    · exact h.later i j f f₁ g (getElem?_concat_below hf₀) hf₁ hji hm
    · rcases List.mem_append.mp hm with hm | hm
      · exact h.later _ j f₀ f₁ g (getElem?_concat_below hf₀) hf₁ hji hm
      · rcases List.mem_cons.mp hm with rfl | hm
        · exact goal_ne_top h hf₁ hj
        · exact h.later _ j s.top f₁ g getElem?_concat_top hf₁ (by omega) hm
  · intro i f f' hf hf'
    obtain ⟨f₀, hf₀, _, _, _, _, htrial, _⟩ := keep_frames_same ho hf
    obtain ⟨f₁, hf₁, _, hgoal, _⟩ := keep_frames_same ho hf'
    rw [htrial, hgoal]
    exact h.waiting i f₀ f₁ hf₀ hf₁
  · intro i f hf
    obtain ⟨f₀, hf₀, _, _, _, hlow, _⟩ := keep_frames_same ho hf
    rw [hlow]
    exact h.low i f₀ hf₀
  · intro i f t hf ht
    obtain ⟨f₀, hf₀, _, _, _, _, htrial, _⟩ := keep_frames_same ho hf
    exact h.trialLow i f₀ t hf₀ (htrial ▸ ht)

/-- A cut drops the entries of the goals that it reaches. -/
theorem cut_states {failure : Failure} (hf : failure.isDepthExceeded = true) (g : Term) :
    s.Affected true g ∧ (s.spread (.error failure)).get? g = none ∨
      ¬s.Affected true g ∧ (s.spread (.error failure)).get? g = s.ledger.get? g := by
  by_cases ha : s.Affected true g
  · exact .inl ⟨ha, Ledger.get?_spreadFailure_of_cut hf ha⟩
  · exact .inr ⟨ha, Ledger.get?_spreadFailure_of_not_affected (by rw [hf]; exact ha)⟩

theorem cut_inProgress (h : Aligned s.stack s.ledger.get?) {failure : Failure}
    (hf : failure.isDepthExceeded = true) {g : Term} {i : Nat} {id : ProofId} :
    (s.spread (.error failure)).get? g = some (.inProgress i id) ↔
      s.ledger.get? g = some (.inProgress i id) ∧ i < s.below.length := by
  constructor
  · intro he
    rcases cut_states (s := s) hf g with ⟨_, hn⟩ | ⟨hn, hs⟩
    · rw [hn] at he
      cases he
    · rw [hs] at he
      refine ⟨he, ?_⟩
      obtain ⟨f, hfr, hfg, _⟩ := h.inProgress g i id he
      rcases getElem?_concat_cases hfr with ⟨hi, _⟩ | ⟨_, rfl⟩
      · exact hi
      · exact absurd (hfg ▸ Ledger.Affected.goal) hn
  · rintro ⟨he, hi⟩
    rcases cut_states (s := s) hf g with ⟨ha, _⟩ | ⟨_, hs⟩
    · obtain ⟨f, hfr, hfg, _⟩ := h.inProgress g i id he
      exfalso
      rcases Ledger.affected_cases ha with rfl | ⟨_, hm⟩ | ⟨_, k, o, chain, hp⟩
      · obtain ⟨rfl, -⟩ : s.below.length = i ∧ _ := by simpa using (top_framed h).symm.trans he
        omega
      · exact h.later _ i s.top f g getElem?_concat_top hfr (by omega) hm hfg
      · cases he.symm.trans hp
    · rw [hs, he]

theorem cut_provisional (h : Aligned s.stack s.ledger.get?) {failure : Failure}
    (hf : failure.isDepthExceeded = true) {g : Term} {k : Nat} {o : Outcome} {chain : GoalChain}
    (he : (s.spread (.error failure)).get? g = some (.provisional k o chain)) :
    s.ledger.get? g = some (.provisional k o chain) ∧ ∃ f, s.below[k]? = some f ∧ g ∈ f.parked := by
  rcases cut_states (s := s) hf g with ⟨_, hn⟩ | ⟨hn, hs⟩
  · rw [hn] at he
    cases he
  · rw [hs] at he
    refine ⟨he, ?_⟩
    obtain ⟨f, hfr, hm⟩ := h.provisional g k o chain he
    rcases getElem?_concat_cases hfr with ⟨_, hfr⟩ | ⟨_, rfl⟩
    · exact ⟨f, hfr, hm⟩
    · exact absurd (Ledger.Affected.own rfl hm) hn

end Search

theorem Frame.receive_cut {f : Frame} {t : Trial} {goal : Term} {failure : Failure} {low : Nat}
    (ht : f.trial = some t) (hf : failure.isDepthExceeded = true) :
    (f.receive goal (.error (.failed failure)) low).IsCut := by
  refine Frame.isCut_iff.mpr
    ⟨.subgoal t.rule.name t.edges.length goal failure, ?_, failure, rfl, hf⟩
  simp [receive, ht, giveUp]

theorem Frame.IsCut.cutFrom {below : List Frame} {top : Frame} (h : top.IsCut) {i : Nat}
    (hi : i ≤ below.length) : CutFrom (below ++ [top]) i :=
  ⟨_, top, hi, getElem?_concat_top, h⟩

namespace Search

variable {s next : Search} {policy : Policy}

theorem modify_last {below : List Frame} {top : Frame} {change : Frame → Frame} :
    (below ++ [top]).modify below.length change = below ++ [change top] := by
  induction below with
  | nil => rfl
  | cons f below ih => simpa using ih

/-- What closing the top frame comes to while there is one below it. -/
inductive Closes (policy : Policy) (s next : Search) : Prop
  | kept {parent} : ¬s.top.IsCut → (s.verdict policy).isDepthExceeded = false →
      (s.keep (s.verdict policy)).2 = next.below ++ [parent] →
      next.ledger = (s.keep (s.verdict policy)).1 →
      (parent.lower s.top.low).Progress next.ledger.get? next.below.length next.top →
      Closes policy s next
  | cut {parent failure} : s.top.IsCut → s.verdict policy = .error failure →
      failure.isDepthExceeded = true → s.below = next.below ++ [parent] →
      next.ledger = s.spread (.error failure) → next.top.IsCut → next.top.reach ≤ s.top.low →
      parent.Progress next.ledger.get? next.below.length next.top → Closes policy s next

theorem closes (h : Aligned s.stack s.ledger.get?) (hs : s.closeTop policy = .running next) :
    Closes policy s next := by
  obtain ⟨parent, hk, hl, _, htop⟩ := closeTop_running hs
  have hdepth : next.below.length + 1 = s.below.length := by
    have := s.keep_length (s.verdict policy)
    rw [hk] at this
    simpa using this
  by_cases hc : s.top.IsCut
  · have ho : (s.verdict policy).isDepthExceeded = true := Frame.outcome_isDepthExceeded.mpr hc
    obtain ⟨failure, hv⟩ : ∃ failure, s.verdict policy = .error failure := by
      cases hv : s.verdict policy with
      | ok p => simp [hv, Outcome.isDepthExceeded] at ho
      | error f => exact ⟨f, rfl⟩
    rw [keep_of_cut ho, hv] at hk hl
    rw [hv] at htop ho
    have hf : failure.isDepthExceeded = true := ho
    have hp : s.stack[next.below.length]? = some parent := by
      rw [stack, show s.below = next.below ++ [parent] from hk]
      simp
    obtain ⟨t, r, ht, hr, ha⟩ := h.waiting next.below.length parent s.top hp
      (hdepth ▸ getElem?_concat_top)
    have hn : next.ledger.get? s.top.goal = none := by
      rw [hl]
      exact Ledger.get?_spreadFailure_of_cut hf .goal
    refine .cut hc hv hf hk hl ?_ ?_ ?_
    · rw [htop]
      exact Frame.receive_cut ht hf
    · rw [htop]
      simp [Outcome.asLink, Frame.receive, ht, Frame.giveUp, Frame.reach]
    · rw [htop]
      exact .received ht hr ha (.cut hn hf)
  · have ho : (s.verdict policy).isDepthExceeded = false :=
      Bool.eq_false_iff.mpr (mt Frame.outcome_isDepthExceeded.mp hc)
    have hp : (s.keep (s.verdict policy)).2[next.below.length]? = some parent := by
      rw [hk]
      exact getElem?_concat_top
    obtain ⟨f₀, hf₀, _, _, _, _, htrial, _⟩ := keep_frames_same ho hp
    obtain ⟨t, r, ht, hr, ha⟩ := h.waiting next.below.length f₀ s.top hf₀
      (hdepth ▸ getElem?_concat_top)
    refine .kept hc ho hk hl ?_
    have hg := keep_top (s := s) ho
    rw [← hl] at hg
    rw [htop, ← Frame.lower_receive]
    have hlt : (parent.lower s.top.low).trial = some { t with low := min t.low s.top.low } := by
      simp [Frame.lower, htrial, ht]
    refine .received hlt hr ha ?_
    by_cases hlow : s.top.low < s.below.length
    · rw [if_pos hlow] at hg
      cases hv : s.verdict policy with
      | ok p => exact .provisional (hv ▸ hg)
      | error f => exact .provisionalFailure (hv ▸ hg) (.inl rfl)
    · rw [if_neg hlow] at hg
      cases hv : s.verdict policy with
      | ok p => exact .resolved (by rw [hg, hv]; rfl) (by omega)
      | error f => exact .failed (by rw [hg, hv]; rfl) (.inl rfl) (by omega)

theorem aligned_cut (h : Aligned s.stack s.ledger.get?) {failure : Failure}
    (hf : failure.isDepthExceeded = true) {below : List Frame} {parent top : Frame}
    (hb : s.below = below ++ [parent]) (hc : top.IsCut) {states : States}
    (hp : parent.Progress states below.length top) :
    Aligned (below ++ [top]) (s.spread (.error failure)).get? := by
  have hlen : s.below.length = below.length + 1 := by simp [hb]
  have earlier : ∀ (i : Nat) (f : Frame), (below ++ [top])[i]? = some f →
      ∃ f₀, s.stack[i]? = some f₀ ∧ i < s.below.length ∧ f.goal = f₀.goal ∧ f.id = f₀.id ∧
        f.parked = f₀.parked ∧ (i < below.length ∧ f = f₀ ∨ i = below.length ∧ f₀ = parent ∧ f = top) := by
    intro i f hfr
    obtain ⟨hgoal, hid, hparked⟩ := hp.same
    rcases getElem?_concat_cases hfr with ⟨hi, hfr⟩ | ⟨rfl, rfl⟩
    · refine ⟨f, ?_, by omega, rfl, rfl, rfl, .inl ⟨hi, rfl⟩⟩
      rw [stack, hb]
      exact getElem?_concat_below (getElem?_concat_below hfr)
    · refine ⟨parent, ?_, by omega, hgoal, hid, hparked, .inr ⟨rfl, rfl, rfl⟩⟩
      rw [stack, hb]
      exact getElem?_concat_below getElem?_concat_top
  have later : ∀ (i : Nat) (f₀ : Frame), s.below[i]? = some f₀ → ∃ f, (below ++ [top])[i]? = some f ∧
      f.goal = f₀.goal ∧ f.id = f₀.id ∧ f.parked = f₀.parked := by
    intro i f₀ hfr
    rw [hb] at hfr
    rcases getElem?_concat_cases hfr with ⟨hi, hfr⟩ | ⟨rfl, rfl⟩
    · exact ⟨f₀, getElem?_concat_below hfr, rfl, rfl, rfl⟩
    · exact ⟨top, getElem?_concat_top, hp.same⟩
  refine ⟨?_, ?_, ?_, ?_, ?_, ?_, ?_, ?_⟩
  · intro i f hfr
    obtain ⟨f₀, hf₀, hi, hgoal, hid, _⟩ := earlier i f hfr
    rw [hgoal, hid]
    exact (cut_inProgress h hf).mpr ⟨h.framed i f₀ hf₀, hi⟩
  · intro g i id he
    obtain ⟨he, hi⟩ := (cut_inProgress h hf).mp he
    obtain ⟨f₀, hf₀, hfg, hfi⟩ := h.inProgress g i id he
    rcases getElem?_concat_cases hf₀ with ⟨_, hf₀⟩ | ⟨hn, _⟩
    · obtain ⟨f, hfr, hgoal, hid, _⟩ := later i f₀ hf₀
      exact ⟨f, hfr, hgoal.trans hfg, hid.trans hfi⟩
    · omega
  · intro g k o c he
    obtain ⟨_, f₀, hf₀, hm⟩ := cut_provisional h hf he
    obtain ⟨f, hfr, _, _, hparked⟩ := later k f₀ hf₀
    exact ⟨f, hfr, hparked ▸ hm⟩
  · intro i f g hfr hn
    have hi := (List.getElem?_eq_some_iff.mp hfr).1
    simp only [List.length_append, List.length_singleton] at hi
    exact absurd (hc.cutFrom (by omega)) hn
  · intro i j f f' g hfr hfr' hji hm
    obtain ⟨f₀, hf₀, _, _, _, hparked, _⟩ := earlier i f hfr
    obtain ⟨f₁, hf₁, _, hgoal, _⟩ := earlier j f' hfr'
    rw [hgoal]
    exact h.later i j f₀ f₁ g hf₀ hf₁ hji (hparked ▸ hm)
  · intro i f f' hfr hfr'
    obtain ⟨f₀, hf₀, _, _, _, _, ⟨_, rfl⟩ | ⟨rfl, _⟩⟩ := earlier i f hfr
    · obtain ⟨f₁, hf₁, _, hgoal, _⟩ := earlier (i + 1) f' hfr'
      rw [hgoal]
      exact h.waiting i f f₁ hf₀ hf₁
    · have hi := (List.getElem?_eq_some_iff.mp hfr').1
      simp at hi
  · intro i f hfr
    obtain ⟨f₀, hf₀, _, _, _, _, ⟨_, rfl⟩ | ⟨_, rfl, rfl⟩⟩ := earlier i f hfr
    · exact h.low i f hf₀
    · exact le_trans hp.low_le (h.low i f₀ hf₀)
  · intro i f t hfr ht
    obtain ⟨f₀, hf₀, _, _, _, _, ⟨_, rfl⟩ | ⟨rfl, rfl, rfl⟩⟩ := earlier i f hfr
    · exact h.trialLow i f t hf₀ ht
    · exact hp.trialLow (fun t ht => h.trialLow _ f₀ t hf₀ ht) ht

end Search

/-- Between calls, no goal is under way and no outcome is provisional. -/
theorem aligned_nil {states : States} :
    Aligned [] states ↔ ∀ g state, states g = some state →
      (∃ p, state = .resolved p) ∨ ∃ f, state = .failed f := by
  constructor
  · intro h g state hg
    cases state with
    | inProgress i id => simpa using h.inProgress g i id hg
    | provisional k o chain => simpa using h.provisional g k o chain hg
    | resolved p => exact .inl ⟨p, rfl⟩
    | failed f => exact .inr ⟨f, rfl⟩
  · intro h
    refine ⟨by simp, ?_, ?_, by simp, by simp, by simp, by simp, by simp⟩
    · intro g i id hg
      rcases h g _ hg with ⟨p, hp⟩ | ⟨f, hf⟩
      · cases hp
      · cases hf
    · intro g k o chain hg
      rcases h g _ hg with ⟨p, hp⟩ | ⟨f, hf⟩
      · cases hp
      · cases hf

theorem Aligned.eq_none {states : States} {g : Term} (h : Aligned [] states)
    (hr : ∀ p, states g ≠ some (.resolved p)) (hf : ∀ f, states g ≠ some (.failed f)) :
    states g = none := by
  cases hs : states g with
  | none => rfl
  | some state =>
    rcases aligned_nil.mp h g state hs with ⟨p, rfl⟩ | ⟨f, rfl⟩
    · exact absurd hs (hr p)
    · exact absurd hs (hf f)

namespace Search

variable {catalog : Catalog} {policy : Policy} {s next : Search}

theorem aligned_cut_last (h : Aligned s.stack s.ledger.get?) {failure : Failure}
    (hf : failure.isDepthExceeded = true) (hb : s.below = []) :
    Aligned [] (s.spread (.error failure)).get? := by
  refine aligned_nil.mpr fun g state hg => ?_
  cases state with
  | inProgress i id => simpa [hb] using ((cut_inProgress h hf).mp hg).2
  | provisional k o chain =>
    obtain ⟨_, f, hk, _⟩ := cut_provisional h hf hg
    simp [hb] at hk
  | resolved p => exact .inl ⟨p, rfl⟩
  | failed f => exact .inr ⟨f, rfl⟩

theorem push_get? (known : Knowledge) (below : List Frame) (goal g : Term) :
    (push catalog known below goal).ledger.get? g =
      if g = goal then some (.inProgress below.length known.table.size) else known.ledger.get? g :=
  Ledger.get?_set _ _ _ _

theorem aligned_running (h : Aligned s.stack s.ledger.get?)
    (hs : s.step catalog policy = .running next) : Aligned next.stack next.ledger.get? := by
  rcases running_cases hs with ⟨hl, _, top, hp, hst⟩ | ⟨t, r, goal, ht, hr, ha, hg, _, rfl⟩ |
    ⟨_, _, hcl⟩
  · rw [hl]
    rcases hst with hst | ⟨j, hst⟩
    · rw [hst]
      exact h.progress hp
    · rw [hst]
      exact (h.progress hp).refer j
  · apply Aligned.push h hg
    · exact fun g => push_get? _ _ _ _
    · intro f hf
      rw [stack_length] at hf
      obtain rfl : f = s.top := by
        have htop : (s.below ++ [s.top])[s.below.length]? = some s.top := getElem?_concat_top
        simpa using hf.symm.trans htop
      exact ⟨t, r, ht, hr, ha⟩
  · cases closes h hcl with
    | @kept parent hc ho hk hl hp =>
      have ha := (aligned_keep h hc ho).lower s.top.low next.below.length
      rw [hk, ← hl, modify_last] at ha
      exact ha.progress hp
    | @cut parent failure _ _ hf hb hl hc _ hp =>
      rw [hl]
      exact aligned_cut h hf hb hc hp

end Search

end Clausal
