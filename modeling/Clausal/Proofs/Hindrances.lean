import Clausal.Proofs.Soundness

namespace Clausal

/-- Some requirement of a rule fails a condition, or cannot be instantiated at all. -/
def Rule.Lacks (r : Rule) (subst : Substitution) (P : Term → Prop) : Prop :=
  ∃ q ∈ r.body, ∀ goal, subst.apply q.pattern = .ok goal → P goal

def HasFailed (states : States) (goal : Term) : Prop :=
  ∃ f, states goal = some (.failed f)

/-- A goal that gives a frame no proof: it failed, or is under way or failed for the time being,
and rests on no frame outside the given range. -/
def Hindered (states : States) (low high : Nat) (goal : Term) : Prop :=
  HasFailed states goal ∨
    (∃ j id, states goal = some (.inProgress j id) ∧ low ≤ j ∧ j ≤ high) ∨
    ∃ k f chain, states goal = some (.provisional k (.error f) chain) ∧ low ≤ k ∧ k ≤ high

/-- A rule applies to the goal of a frame and is still to be tried, or on trial, or met. -/
inductive Frame.Keeps (f : Frame) (r : Rule) : Prop
  | remaining : r ∈ f.remaining → Keeps f r
  | trial {t} : f.trial = some t → t.rule = r → Keeps f r
  | success {s} : s ∈ f.successes → s.rule = r → Keeps f r

/-- A rule that matches a goal has a requirement that hinders it. -/
def Halted (states : States) (low high : Nat) (goal : Term) (r : Rule) : Prop :=
  ∀ subst, unify goal r.head = .ok subst → r.Lacks subst (Hindered states low high)

/-- On a frame that the depth bound does not cut short, each candidate is kept or halted. -/
def Accounted (catalog : Catalog) (frames : List Frame) (states : States) : Prop :=
  ∀ (i : Nat) (f : Frame), frames[i]? = some f → ¬CutFrom frames i →
    ∀ r ∈ catalog.candidates f.goal, f.Keeps r ∨ Halted states f.reach i f.goal r

section

variable {catalog : Catalog} {frames : List Frame} {states states' : States} {low low' high : Nat}
  {goal : Term} {r : Rule} {subst : Substitution} {P Q : Term → Prop} {f f₀ top top' : Frame}

theorem Rule.Lacks.mono (h : r.Lacks subst P) (hPQ : ∀ x, P x → Q x) : r.Lacks subst Q := by
  obtain ⟨q, hq, hP⟩ := h
  exact ⟨q, hq, fun goal ha => hPQ goal (hP goal ha)⟩

theorem Halted.mono (h : Halted states low high goal r)
    (hs : ∀ x, Hindered states low high x → Hindered states' low' high x) :
    Halted states' low' high goal r :=
  fun subst hu => (h subst hu).mono hs

theorem Hindered.lower (h : Hindered states low high goal) (hle : low' ≤ low) :
    Hindered states low' high goal := by
  rcases h with hf | ⟨j, id, hg, hl, hh⟩ | ⟨k, f, chain, hg, hl, hh⟩
  · exact .inl hf
  · exact .inr (.inl ⟨j, id, hg, le_trans hle hl, hh⟩)
  · exact .inr (.inr ⟨k, f, chain, hg, le_trans hle hl, hh⟩)

theorem Hindered.congr (h : Hindered states low high goal) (he : states' goal = states goal) :
    Hindered states' low high goal := by
  unfold Hindered HasFailed at h ⊢
  rw [he]
  exact h

theorem Hindered.ne_none (h : Hindered states low high goal) : states goal ≠ none := by
  rcases h with ⟨f, hg⟩ | ⟨j, id, hg, _⟩ | ⟨k, f, chain, hg, _⟩ <;> simp [hg]

theorem Frame.Keeps.trails (h : f₀.Keeps r) (ht : f.Trails f₀) : f.Keeps r := by
  cases h with
  | remaining hr => exact .remaining (ht.remaining ▸ hr)
  | @trial t₀ ht₀ hr =>
    obtain ⟨t, hft, hrule, _⟩ := ht.trial t₀ ht₀
    exact .trial hft (hrule.trans hr)
  | success hs hr => exact .success (ht.successes ▸ hs) hr

/-- What a frame keeps when it gives up a rule. -/
theorem Frame.Keeps.giveUp {t t' : Trial} {a : Attempt} (h : f.Keeps r) (ht : f.trial = some t)
    (hne : t.rule ≠ r) : (f.giveUp t' a).Keeps r := by
  cases h with
  | remaining hr => exact .remaining hr
  | trial ht' hr =>
    obtain rfl := Option.some.inj (ht.symm.trans ht')
    exact absurd hr hne
  | success hs hr => exact .success hs hr

/-- An answer that gives no proof comes from a goal that hinders the frame from then on. -/
theorem Answers.hindered {depth : Nat} {q : Requirement} {b : Blocked}
    (h : Answers states depth q goal (.error b) low)
    (hd : ∀ k o chain, states goal = some (.provisional k o chain) → k ≤ depth)
    (hj : ∀ j id, states goal = some (.inProgress j id) → j ≤ depth) (hle : low' ≤ low) :
    Hindered states low' depth goal ∨ ∃ f, b = .failed f ∧ f.isDepthExceeded = true := by
  cases h with
  | cycle hg _ => exact .inl (.inr (.inl ⟨_, _, hg, hle, hj _ _ hg⟩))
  | provisionalFailure hg _ => exact .inl (.inr (.inr ⟨_, _, _, hg, hle, hd _ _ _ hg⟩))
  | failed hg _ _ => exact .inl (.inl ⟨_, hg⟩)
  | cut _ hf => exact .inr ⟨_, rfl, hf⟩

theorem Frame.Keeps.tryRule {depth : Nat} {rule : Rule} {rest : List Rule} (h : f.Keeps r)
    (ht : f.trial = none) (hr : f.remaining = rule :: rest) :
    (f.tryRule depth rule rest).Keeps r ∨ ∃ reason, unify f.goal r.head = .error reason := by
  unfold Frame.tryRule
  cases h with
  | remaining hmem =>
    rw [hr] at hmem
    rcases List.mem_cons.mp hmem with rfl | hmem
    · cases hu : unify f.goal r.head with
      | ok subst => exact .inl (.trial rfl rfl)
      | error reason => exact .inr ⟨reason, rfl⟩
    · left
      split <;> exact .remaining hmem
  | trial ht' _ => cases ht.symm.trans ht'
  | success hmem hrule =>
    left
    split <;> exact .success hmem hrule

theorem Frame.Keeps.succeed {t : Trial} (h : f.Keeps r) (ht : f.trial = some t) :
    (f.succeed t).Keeps r := by
  cases h with
  | remaining hmem => exact .remaining hmem
  | trial ht' hrule =>
    obtain rfl := Option.some.inj (ht.symm.trans ht')
    exact .success (s := ⟨t.rule, t.edges⟩) (List.mem_append_right _ (by simp)) hrule
  | success hmem hrule => exact .success (List.mem_append_left _ hmem) hrule

theorem Frame.Keeps.receive {t : Trial} {link : Link} (h : f.Keeps r) (ht : f.trial = some t) :
    (f.receive goal (.ok link) low).Keeps r := by
  simp only [Frame.receive, ht]
  cases h with
  | remaining hmem => exact .remaining hmem
  | trial ht' hrule =>
    obtain rfl := Option.some.inj (ht.symm.trans ht')
    exact .trial rfl hrule
  | success hmem hrule => exact .success hmem hrule

/-- The rule on trial is halted by the requirement that it comes to. -/
theorem Frame.Sound.halted {t : Trial} {q : Requirement} (hs : f.Sound catalog)
    (ht : f.trial = some t) (hq : t.next? = some q)
    (hx : ∀ x, t.subst.apply q.pattern = .ok x → Hindered states low high x) :
    Halted states low high f.goal t.rule := by
  intro subst hu
  obtain rfl : t.subst = subst := Except.ok.inj ((hs.trial t ht).2.1.symm.trans hu)
  exact ⟨q, List.mem_of_getElem? hq, hx⟩

theorem Frame.Progress.accounts {depth : Nat} (hp : top.Progress states depth top')
    (hs : top.Sound catalog) (hcut : ¬top'.IsCut)
    (hd : ∀ x k o chain, states x = some (.provisional k o chain) → k ≤ depth)
    (hj : ∀ x j id, states x = some (.inProgress j id) → j ≤ depth)
    (h : top.Keeps r ∨ Halted states top.reach depth top.goal r) :
    top'.Keeps r ∨ Halted states top'.reach depth top'.goal r := by
  rw [hp.same.1]
  have hreach := hp.reach_le
  rcases h with hk | hh
  swap
  · exact .inr (hh.mono fun x hx => hx.lower hreach)
  cases hp with
  | tried ht hr =>
    refine (hk.tryRule ht hr).imp_right ?_
    rintro ⟨reason, hu⟩ subst hs
    cases hu.symm.trans hs
  | succeeded ht hn => exact .inl (hk.succeed ht)
  | @unbound t q v ht hq ha =>
    by_cases hrule : t.rule = r
    · refine .inr (hrule ▸ hs.halted ht hq fun x hx => ?_)
      cases ha.symm.trans hx
    · exact .inl (hk.giveUp ht hrule)
  | @received t q x answer low ht hq ha hans =>
    cases answer with
    | ok link => exact .inl (hk.receive ht)
    | error b =>
      by_cases hrule : t.rule = r
      · refine .inr (hrule ▸ hs.halted ht hq fun y hy => ?_)
        obtain rfl := Except.ok.inj (ha.symm.trans hy)
        have hlow : (top.receive x (.error b) low).reach ≤ low := by
          cases b <;> simp [reach, receive, ht, Frame.giveUp]
        rcases hans.hindered (hd x) (hj x) hlow with hh | ⟨f, rfl, hf⟩
        · exact hh
        · exact absurd (Frame.receive_cut ht hf) hcut
      · left
        simp only [receive, ht]
        cases b <;> exact hk.giveUp ht hrule

theorem Accounted.push {goal : Term} {id : ProofId} (h : Accounted catalog frames states)
    (hg : states goal = none)
    (hs : ∀ g, states' g = if g = goal then some (.inProgress frames.length id) else states g) :
    Accounted catalog (frames ++ [Frame.start catalog frames.length goal id]) states' := by
  intro i f hf hc r hr
  rcases getElem?_concat_cases hf with ⟨_, hf⟩ | ⟨_, rfl⟩
  · refine (h i f hf (fun hh => hc hh.concat) r hr).imp_right fun hh => hh.mono fun x hx => ?_
    apply hx.congr
    rw [hs, if_neg]
    rintro rfl
    exact hx.ne_none hg
  · exact .inl (.remaining hr)

theorem Accounted.progress {below : List Frame} (h : Accounted catalog (below ++ [top]) states)
    (ha : Aligned (below ++ [top]) states) (hs : top.Sound catalog)
    (hp : top.Progress states below.length top') : Accounted catalog (below ++ [top']) states := by
  have bound : ∀ (k : Nat) (f : Frame), (below ++ [top])[k]? = some f → k ≤ below.length := by
    intro k f hf
    have := (List.getElem?_eq_some_iff.mp hf).1
    simp at this
    omega
  intro i f hf hc r hr
  have hc' : ¬CutFrom (below ++ [top]) i := fun hh => hc (hh.progress hp)
  rcases getElem?_concat_cases hf with ⟨_, hf⟩ | ⟨rfl, rfl⟩
  · exact h i f (getElem?_concat_below hf) hc' r hr
  · rw [hp.same.1] at hr
    have hcut : ¬f.IsCut := fun hh => hc (hh.cutFrom le_rfl)
    refine hp.accounts hs hcut ?_ ?_ (h _ top getElem?_concat_top hc' r hr)
    · intro x k o chain hg
      obtain ⟨f', hf', _⟩ := ha.provisional x k o chain hg
      exact bound k f' hf'
    · intro x j id hg
      obtain ⟨f', hf', _⟩ := ha.inProgress x j id hg
      exact bound j f' hf'

theorem Accounted.refer (h : Accounted catalog frames states) (j : Nat) :
    Accounted catalog (frames.modify j Frame.refer) states := by
  intro i f hf hc r hr
  obtain ⟨f₀, hf₀, ht⟩ := getElem?_refer hf
  rw [ht.goal] at hr ⊢
  rcases h i f₀ hf₀ (fun hh => hc hh.refer) r hr with hk | hh
  · exact .inl (hk.trails ht.trails)
  · exact .inr (hh.mono fun x hx => hx.lower ht.trails.reach_le)

theorem Accounted.nil : Accounted catalog [] states := by
  intro i f hf
  simp at hf

/-- The frames that go on after a cut are all cut short. -/
theorem Accounted.cut {below : List Frame} (h : Cuts states low below frames) :
    Accounted catalog frames states' :=
  fun _ _ hf hc => absurd (h.earlier hf).1 hc

end

namespace Search

variable {catalog : Catalog} {policy : Policy} {s : Search}

/-- A failure that is recorded stays when a frame ends that is not cut short. -/
theorem hasFailed_keep (h : Aligned s.stack s.ledger.get?) (hc : ¬s.top.IsCut) {outcome : Outcome}
    (ho : outcome.isDepthExceeded = false) {g : Term} (hg : HasFailed s.ledger.get? g) :
    HasFailed (s.keep outcome).1.get? g := by
  obtain ⟨f, hf⟩ := hg
  have hne : g ≠ s.top.goal := by
    rintro rfl
    rw [top_framed h] at hf
    cases hf
  refine ⟨f, ?_⟩
  rw [keep_states h hc ho hne]
  rcases spread_cases ho g with hs | ⟨k, p, chain, _, _, _, hp, _⟩
  · rw [hs, hf]
    rfl
  · cases hf.symm.trans hp

/-- Frames below the top one stay hindered by the same goals when it ends. -/
theorem hindered_keep (h : Aligned s.stack s.ledger.get?) (hc : ¬s.top.IsCut) {outcome : Outcome}
    (ho : outcome.isDepthExceeded = false) {low i : Nat} (hi : i < s.below.length) {g : Term}
    (hg : Hindered s.ledger.get? low i g) : Hindered (s.keep outcome).1.get? low i g := by
  rcases hg with hf | ⟨j, id, hg, hl, hh⟩ | ⟨k, f, chain, hg, hl, hh⟩
  · exact .inl (hasFailed_keep h hc ho hf)
  · have hne : g ≠ s.top.goal := by
      rintro rfl
      obtain ⟨rfl, -⟩ : s.below.length = j ∧ s.top.id = id := by simpa using (top_framed h).symm.trans hg
      omega
    refine .inr (.inl ⟨j, id, ?_, hl, hh⟩)
    rw [keep_states h hc ho hne, (spread_inProgress ho).mpr hg]
    rfl
  · have hne : g ≠ s.top.goal := by
      rintro rfl
      rw [top_framed h] at hg
      cases hg
    refine .inr (.inr ⟨k, f, chain, ?_, hl, hh⟩)
    rw [keep_states h hc ho hne]
    rcases spread_cases (s := s) ho g with hs | ⟨_, p, _, _, _, _, hp, _⟩
    · have hk : k ≠ s.below.length := by omega
      simp [hs, hg, GoalState.close?, hk]
    · cases hg.symm.trans hp

theorem accounted_keep (h : Aligned s.stack s.ledger.get?) (hc : ¬s.top.IsCut) {outcome : Outcome}
    (ho : outcome.isDepthExceeded = false) (hacc : Accounted catalog s.stack s.ledger.get?) :
    Accounted catalog ((s.keep outcome).2.modify (s.below.length - 1) (Frame.lower s.top.low))
      (s.keep outcome).1.get? := by
  intro i f hf hn r hr
  obtain ⟨f₀, hf₀, hi, ht, _⟩ := keep_lowered h ho hf
  rw [ht.goal] at hr ⊢
  rcases hacc i f₀ hf₀ (not_cutFrom_lowered ho hc hn) r hr with hk | hh
  · exact .inl (hk.trails ht)
  · exact .inr (hh.mono fun x hx => (hindered_keep h hc ho hi hx).lower ht.reach_le)

/-- A rule of the top frame that is neither left, on trial nor met, once the frame ends. -/
theorem halted_of_ended (hc : ¬s.top.IsCut) (ht : s.top.trial = none) (hr : s.top.remaining = [])
    (hacc : Accounted catalog s.stack s.ledger.get?) {r : Rule}
    (hmem : r ∈ catalog.candidates s.top.goal) (hsuccess : ∀ w ∈ s.top.successes, w.rule ≠ r) :
    Halted s.ledger.get? s.top.low s.below.length s.top.goal r := by
  rcases hacc _ s.top getElem?_concat_top (not_cutFrom_top hc) r hmem with hk | hh
  · cases hk with
    | remaining hm => simp [hr] at hm
    | trial ht' _ => simp [ht] at ht'
    | success hm hrule => exact absurd hrule (hsuccess _ hm)
  · rwa [reach_top ht] at hh

end Search

variable {catalog : Catalog}

/-- Searches keep their proofs in order, and forget no candidate without a reason. -/
theorem accounted_invariant (policy : Policy) (hi : catalog.Indexed) : Invariant catalog policy
    fun _ frames states table => ProofGraph catalog frames states table ∧
      Accounted catalog frames states where
  nothing := ⟨.empty, .nil⟩
  forget h := ⟨h.1.forget, .nil⟩
  past h := h
  push _ h hg hs _ := ⟨h.1.push hi hg hs, h.2.push hg hs⟩
  progress ha h hp :=
    ⟨h.1.progress ha hp, h.2.progress ha (h.1.numbered.sound _ _ getElem?_concat_top) hp⟩
  refer j h := ⟨h.1.refer j, h.2.refer j⟩
  keep ha h ht _ hcut ho := ⟨h.1.keep ha ht hcut ho, Search.accounted_keep ha hcut ho h.2⟩
  cut ha h ht _ _ _ hf hcuts := ⟨h.1.cut ha ht hf hcuts, .cut hcuts⟩

end Clausal
