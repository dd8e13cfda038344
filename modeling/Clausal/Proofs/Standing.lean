import Clausal.Proofs.Course
import Clausal.Proofs.Cutting

namespace Clausal

namespace Search

variable {catalog : Catalog} {policy : Policy} {s next : Search} {g : Term} {p : Proof}

/-- The search drops what is known of a goal: the depth bound has cut short the frame that ends, and
the frame's list of parked goals names the goal, be it still parked there or not. -/
structure Discards (s : Search) (g : Term) : Prop where
  closing : s.Closing
  cut : s.top.IsCut
  listed : g ∈ s.top.parked

/-- A frame that ends leaves a proof that is final as it is, or drops it. -/
theorem closed_resolved (ha : Aligned s.stack s.ledger.get?) (hs : s.Closing)
    (hg : s.ledger.get? g = some (.resolved p)) :
    s.Discards g ∧ s.closed policy g = none ∨
      ¬s.Discards g ∧ s.closed policy g = some (.resolved p) := by
  have htop : g ≠ s.top.goal := by
    rintro rfl
    cases (top_framed ha).symm.trans hg
  by_cases hc : s.top.IsCut
  · have hstates : s.Affected true g ∧ s.closed policy g = none ∨
        ¬s.Affected true g ∧ s.closed policy g = s.ledger.get? g := closed_of_cut_states hc g
    rcases hstates with ⟨haffected, hnone⟩ | ⟨hn, hsame⟩
    · have hlisted : g ∈ s.top.parked := by
        rcases Ledger.affected_cases haffected with he | ⟨_, hm⟩ | ⟨_, k, o, chain, hprov⟩
        · exact absurd he htop
        · exact hm
        · cases hprov.symm.trans hg
      exact .inl ⟨⟨hs, hc, hlisted⟩, hnone⟩
    · refine .inr ⟨fun hd => hn (Ledger.Affected.own rfl hd.listed), ?_⟩
      rw [hsame, hg]
  · have ho : (s.verdict policy).isDepthExceeded = false := not_verdict_isDepthExceeded hc
    refine .inr ⟨fun hd => hc hd.cut, ?_⟩
    have hspread : (s.spread (s.verdict policy)).get? g = some (.resolved p) := by
      rcases spread_cases ho g with hsame | ⟨_, _, _, _, _, _, hprov, _⟩
      · exact hsame.trans hg
      · cases hprov.symm.trans hg
    rw [closed, keep_states ha hc ho htop, hspread]
    rfl

theorem not_closing_of_progress {states : States} {depth : Nat} {top : Frame}
    (hp : s.top.Progress states depth top) : ¬s.Closing := by
  rintro ⟨ht, hr⟩
  cases hp with
  | tried _ hrest => cases hr.symm.trans hrest
  | succeeded hsome _ => cases ht.symm.trans hsome
  | unbound hsome _ _ => cases ht.symm.trans hsome
  | received hsome _ _ _ => cases ht.symm.trans hsome

theorem running_resolved (ha : Aligned s.stack s.ledger.get?)
    (hs : s.step catalog policy = .running next) (hg : s.ledger.get? g = some (.resolved p)) :
    s.Discards g ∧ next.ledger.get? g = none ∨
      ¬s.Discards g ∧ next.ledger.get? g = some (.resolved p) := by
  rcases running_cases hs with ⟨hl, _, top, hp, _⟩ | ⟨t, r, goal, ht, _, _, hunknown, _, rfl⟩ |
    ⟨ht, hr, hcl⟩
  · have hopen : ¬s.Closing := not_closing_of_progress hp
    exact .inr ⟨fun hd => hopen hd.closing, by rw [hl, hg]⟩
  · refine .inr ⟨fun hd => ?_, ?_⟩
    · cases hd.closing.1.symm.trans ht
    · have hne : g ≠ goal := by
        rintro rfl
        cases hunknown.symm.trans hg
      rw [push_get?, if_neg hne]
      exact hg
  · obtain ⟨_, _, hl, _⟩ := closeTop_running hcl
    rw [hl]
    exact closed_resolved ha ⟨ht, hr⟩ hg

theorem finished_resolved {outcome : Outcome} {known : Knowledge}
    (ha : Aligned s.stack s.ledger.get?) (hs : s.step catalog policy = .finished outcome known)
    (hg : s.ledger.get? g = some (.resolved p)) :
    s.Discards g ∧ known.ledger.get? g = none ∨
      ¬s.Discards g ∧ known.ledger.get? g = some (.resolved p) := by
  obtain ⟨ht, hr, hcl⟩ := finished_cases hs
  obtain ⟨_, rfl, hl, _⟩ := closeTop_finished hcl
  rw [hl]
  exact closed_resolved ha ⟨ht, hr⟩ hg

/-- Without a depth bound no frame is cut short. -/
theorem uncut_running (hn : policy.maxDepth = none)
    (hconcl : ∀ g state, s.ledger.get? g = some state → state.Concluded)
    (hs : s.step catalog policy = .running next) (h : ∀ f ∈ s.stack, ¬f.IsCut) :
    ∀ f ∈ next.stack, ¬f.IsCut := by
  intro f hf hcut
  obtain ⟨cause, hb, hd⟩ := Frame.isCut_iff_blames.mp hcut
  rcases blamed_running hconcl hs ⟨f, hf, hb⟩ hd with ⟨f₀, hf₀, hold⟩ | ⟨goal, hr⟩
  · exact h f₀ hf₀ (Frame.isCut_iff_blames.mpr ⟨cause, hold, hd⟩)
  · have hadmitted : policy.refusal? s.chain goal = none := by simp [Policy.refusal?, hn]
    cases hadmitted.symm.trans hr.refused

end Search

/-- The proof is not what is known of the goal, finally or so far. -/
def Lost (g : Term) (p : Proof) (states : States) : Prop :=
  ∀ state, states g = some state → state.outcome? ≠ some (.ok p)

variable {catalog : Catalog} {policy : Policy} {g : Term} {p : Proof}

theorem Lost.of_none {states : States} (h : states g = none) : Lost g p states := by
  intro state hst
  cases h.symm.trans hst

theorem Lost.push {states states' : States} {goal : Term} {n : Nat} {id : ProofId}
    (h : Lost g p states)
    (hs : ∀ g, states' g = if g = goal then some (.inProgress n id) else states g) :
    Lost g p states' := by
  intro state hst
  rw [hs] at hst
  split at hst
  · cases hst
    simp [GoalState.outcome?]
  · exact h state hst

/-- A proof that is lost is not found again, since what a frame finds has a number of its own. -/
theorem Lost.closed {s : Search} (h : Lost g p s.ledger.get?)
    (ha : Aligned s.stack s.ledger.get?) (hg : ProofGraph catalog s.stack s.ledger.get? s.table)
    (hp : s.table.get? p.id = some p) (hc : ¬s.top.IsCut) : Lost g p (s.closed policy) := by
  intro state hst hout
  rcases s.closed_outcome? ha hc hst hout with hv | ⟨before, hb, hsame⟩ | ⟨_, _, _, _, _, _, he⟩
  · obtain ⟨_, success, _, rfl⟩ := Frame.outcome_ok hv.symm
    have hfresh := (hg.numbered.fresh _ s.top getElem?_concat_top).2
    cases hfresh.symm.trans hp
  · exact h before hb hsame
  · cases he

/-- A proof that is recorded but lost stays so. -/
theorem lost_carried (policy : Policy) (hc : catalog.Indexed) (g : Term) {before : ProofTable}
    (hp : before.get? p.id = some p) : Carried catalog policy fun _ frames states table =>
      (ProofGraph catalog frames states table ∧ before.Extends table) ∧ Lost g p states := by
  refine (grown_carried policy hc before).and (J := fun _ states => Lost g p states)
    (fun _ _ _ h => h) (fun _ _ _ _ _ _ h _ hs => h.push hs) ?_ ?_
  · intro _ s ha hi _ hcut h
    exact h.closed ha hi.1 (hi.2.get? _ _ hp) hcut
  · intro _ s _ _ _ hcut h state hst
    rcases Search.closed_of_cut_states hcut g with ⟨_, hnone⟩ | ⟨_, hsame⟩
    · exact Lost.of_none hnone state hst
    · exact h state (hsame.symm.trans hst)

namespace Course

variable {a b : Moment} {past : List Search}

theorem resolved_or_lost_snoc {s : Search} {states : States} (hkept : ∀ e ∈ past, ¬e.Discards g)
    (hnext : s.Discards g ∧ states g = none ∨ ¬s.Discards g ∧ states g = some (.resolved p)) :
    (∀ e ∈ past ++ [s], ¬e.Discards g) ∧ states g = some (.resolved p) ∨
      (∃ e ∈ past ++ [s], e.Discards g) ∧ Lost g p states := by
  rcases hnext with ⟨hd, hnone⟩ | ⟨hd, hres⟩
  · have hmem : s ∈ past ++ [s] := List.mem_append_right _ (List.mem_singleton_self s)
    exact .inr ⟨⟨s, hmem, hd⟩, .of_none hnone⟩
  · refine .inl ⟨fun e he => ?_, hres⟩
    rcases List.mem_append.mp he with he | he
    · exact hkept e he
    · rw [List.mem_singleton.mp he]
      exact hd

/-- From the moment a goal has a proof that is final, the goal keeps it up to the first state that
discards it, and is never again left with that very proof. -/
theorem resolved_or_lost (hc : catalog.Indexed) (h : Course catalog policy a past b)
    (ha : Aligned a.frames a.states) (hgraph : ProofGraph catalog a.frames a.states a.known.table)
    (hg : a.states g = some (.resolved p)) :
    (∀ e ∈ past, ¬e.Discards g) ∧ b.states g = some (.resolved p) ∨
      (∃ e ∈ past, e.Discards g) ∧ Lost g p b.states := by
  have hp : a.known.table.get? p.id = some p := (hgraph.warranted.resolved g p hg).2.1
  have hself : a.known.table.Extends a.known.table := ⟨le_rfl, fun _ _ h => h⟩
  have grown := grown_carried policy hc a.known.table
  have lost := lost_carried policy hc g hp
  -- Only a step can discard the goal; from then on its proof stays recorded, so that the number is
  -- taken, and `lost` goes on.
  induction h with
  | rest => exact .inl ⟨by simp, hg⟩
  | counted _ he ih =>
    rw [Moment.states_counted he]
    exact ih
  | @begin past known goal _ hs ih =>
    rcases ih with ⟨hkept, hres⟩ | ⟨hd, hlost⟩
    · have hne : g ≠ goal := by
        rintro rfl
        exact hs.unresolved p hres
      refine .inl ⟨hkept, ?_⟩
      show (known.first catalog goal).ledger.get? g = some (.resolved p)
      rw [Knowledge.first_get?, if_neg hne]
      exact hres
    · exact .inr ⟨hd, hlost.push Knowledge.first_get?⟩
  | step hcourse hs ih =>
    obtain ⟨hal, hgrown⟩ := hcourse.carried grown [] ha ⟨hgraph, hself⟩
    rcases ih with ⟨hkept, hres⟩ | ⟨⟨e, he, hd⟩, hlost⟩
    · exact resolved_or_lost_snoc hkept (Search.running_resolved hal hs hres)
    · have hnext := lost.running [] hal ⟨hgrown, hlost⟩ hs
      exact .inr ⟨⟨e, List.mem_append_left _ he, hd⟩, hnext.2⟩
  | finish hcourse hs ih =>
    obtain ⟨hal, hgrown⟩ := hcourse.carried grown [] ha ⟨hgraph, hself⟩
    rcases ih with ⟨hkept, hres⟩ | ⟨⟨e, he, hd⟩, hlost⟩
    · exact resolved_or_lost_snoc hkept (Search.finished_resolved hal hs hres)
    · obtain ⟨_, hnext⟩ := lost.finished [] hal ⟨hgrown, hlost⟩ hs
      exact .inr ⟨⟨e, List.mem_append_left _ he, hd⟩, hnext.2⟩

/-- Without a depth bound nothing is discarded. -/
theorem uncut (hn : policy.maxDepth = none) (h : Course catalog policy a past b)
    (ha : Aligned a.frames a.states) (hconcl : ∀ g state, a.states g = some state → state.Concluded)
    (huncut : ∀ f ∈ a.frames, ¬f.IsCut) :
    (∀ f ∈ b.frames, ¬f.IsCut) ∧ ∀ e ∈ past, ¬e.top.IsCut := by
  have concluded := (concluded_invariant catalog policy).toCarried
  have snoc : ∀ {past : List Search} {s : Search}, (∀ f ∈ s.stack, ¬f.IsCut) →
      (∀ e ∈ past, ¬e.top.IsCut) → ∀ e ∈ past ++ [s], ¬e.top.IsCut := by
    intro past s hs hpast e he
    rcases List.mem_append.mp he with he | he
    · exact hpast e he
    · rw [List.mem_singleton.mp he]
      exact hs s.top (by simp [Search.stack])
  induction h with
  | rest => exact ⟨huncut, by simp⟩
  | counted _ _ ih => exact ih
  | @begin past known goal _ _ ih =>
    refine ⟨fun f hf => ?_, ih.2⟩
    obtain rfl : f = Frame.start catalog 0 goal known.table.size := List.mem_singleton.mp hf
    rintro ⟨failure, hcut⟩
    cases hcut
  | step hcourse hs ih =>
    obtain ⟨_, _, hconcl'⟩ := hcourse.carried concluded [] ha ⟨trivial, hconcl⟩
    exact ⟨Search.uncut_running hn hconcl' hs ih.1, snoc ih.1 ih.2⟩
  | finish _ _ ih => exact ⟨by simp [Moment.frames], snoc ih.1 ih.2⟩

end Course

/-- A final proof stays what is known of its goal up to the first search state that discards it, and
never comes back. Without a depth bound none is discarded, nor is a proof that was there when a
search began. -/
theorem resolved_stands_iff {clauses : List (String × Clause)} {V : Type} {past : List Search}
    {s : Prover V} {a b : Moment} {reached later : List Search}
    (hb : Catalog.build clauses = .ok catalog) (hs : Session catalog policy past s)
    (hreached : Course catalog policy (.idle s.known) reached a)
    (hlater : Course catalog policy a later b) (hg : a.states g = some (.resolved p)) :
    (b.states g = some (.resolved p) ↔ ∀ e ∈ later, ¬e.Discards g) ∧
    (policy.maxDepth = none ∨ a.frames = [] → b.states g = some (.resolved p)) := by
  have hc := Catalog.build_indexed hb
  obtain ⟨_, _, hlearnt⟩ := hs.learnt
  obtain ⟨hidle, hgraph⟩ := (proofGraph_invariant policy hc).kept.learnt hlearnt
  obtain ⟨haligned, hagraph⟩ :=
    hreached.carried (proofGraph_invariant policy hc).toCarried [] hidle hgraph
  have hcases := hlater.resolved_or_lost hc haligned hagraph hg
  have hiff : b.states g = some (.resolved p) ↔ ∀ e ∈ later, ¬e.Discards g := by
    rcases hcases with ⟨hkept, hres⟩ | ⟨⟨e, he, hd⟩, hlost⟩
    · exact ⟨fun _ => hkept, fun _ => hres⟩
    · exact ⟨fun hres => absurd rfl (hlost _ hres), fun hkept => absurd hd (hkept e he)⟩
  refine ⟨hiff, ?_⟩
  rintro (hn | hempty)
  · have hwhole := (hreached.trans hlater).uncut hn hidle hlearnt.clean.concluded
      (by simp [Moment.frames])
    refine hiff.mpr fun e he hd => ?_
    exact hwhole.2 e (List.mem_append_right _ he) hd.cut
  · have hsettled : Settled g (.resolved p) a.frames a.states := ⟨hg, by simp [hempty]⟩
    have settled := settled_carried catalog policy g (.inl ⟨p, rfl⟩)
    exact (hlater.carried settled [] haligned hsettled).2.state

theorem exists_resolved_of_any {state : Option GoalState}
    (h : state.any GoalState.isResolved = true) : ∃ p, state = some (.resolved p) := by
  obtain ⟨state, rfl, hresolved⟩ := (Option.any_eq_true _ _).mp h
  cases state with
  | resolved p => exact ⟨p, rfl⟩
  | _ => cases hresolved

/-- The gate is parked on the frame of the root while the arch is searched, dropped when the arch is
cut short, and found again for the user. -/
def arch : List (String × Clause) :=
  [("p", ⟨"root_key", .const "Root", [⟨.const "Key", false⟩]⟩),
    ("p", ⟨"root_user", .const "Root", [⟨.const "User", false⟩]⟩),
    ("p", ⟨"user", .const "User", [⟨.const "Gate", false⟩]⟩),
    ("p", ⟨"key_arch", .const "Key", [⟨.const "Arch", false⟩]⟩),
    ("p", ⟨"key", .const "Key", []⟩),
    ("p", ⟨"arch", .const "Arch", [⟨.const "Gate", false⟩, ⟨.const "Deep", false⟩]⟩),
    ("p", ⟨"deep", .const "Deep", [⟨.const "Deeper", false⟩]⟩),
    ("p", ⟨"gate_later", .const "Gate", [⟨.const "Arch", true⟩, ⟨.const "Root", true⟩]⟩),
    ("p", ⟨"gate_key", .const "Gate", [⟨.const "Key", false⟩]⟩)]

def archCatalog : Catalog where
  rules := [⟨0, "p::root_key", .const "Root", [⟨.const "Key", false⟩]⟩,
    ⟨1, "p::root_user", .const "Root", [⟨.const "User", false⟩]⟩,
    ⟨2, "p::user", .const "User", [⟨.const "Gate", false⟩]⟩,
    ⟨3, "p::key_arch", .const "Key", [⟨.const "Arch", false⟩]⟩,
    ⟨4, "p::key", .const "Key", []⟩,
    ⟨5, "p::arch", .const "Arch", [⟨.const "Gate", false⟩, ⟨.const "Deep", false⟩]⟩,
    ⟨6, "p::deep", .const "Deep", [⟨.const "Deeper", false⟩]⟩,
    ⟨7, "p::gate_later", .const "Gate", [⟨.const "Arch", true⟩, ⟨.const "Root", true⟩]⟩,
    ⟨8, "p::gate_key", .const "Gate", [⟨.const "Key", false⟩]⟩]
  index := [("Root", [0, 1]), ("User", [2]), ("Key", [3, 4]), ("Arch", [5]), ("Deep", [6]),
    ("Gate", [7, 8])]
  arities := [("Root", 0), ("Key", 0), ("User", 0), ("Gate", 0), ("Arch", 0), ("Deep", 0),
    ("Deeper", 0)]

theorem build_arch : Catalog.build arch = .ok archCatalog := by decide

theorem arch_search : ∃ e outcome after p,
    e ∈ Knowledge.empty.trace archCatalog ⟨some 4, .strict⟩ 43 (.const "Root") ∧
    Knowledge.empty.prove archCatalog ⟨some 4, .strict⟩ 43 (.const "Root") =
      some (outcome, after) ∧
    e.ledger.get? (.const "Gate") = some (.resolved p) ∧
    after.ledger.get? (.const "Gate") = none ∧
    ∃ q, after.ledger.get? (.const "User") = some (.resolved q) := by
  have hmid : (Knowledge.empty.trace archCatalog ⟨some 4, .strict⟩ 43 (.const "Root")).any
      (fun e => (e.ledger.get? (.const "Gate")).any GoalState.isResolved) = true := by
    decide +kernel
  have hend : (Knowledge.empty.prove archCatalog ⟨some 4, .strict⟩ 43 (.const "Root")).any
      (fun a => (a.2.ledger.get? (.const "Gate")).isNone &&
        (a.2.ledger.get? (.const "User")).any GoalState.isResolved) = true := by decide +kernel
  obtain ⟨e, he, hgate⟩ := List.any_eq_true.mp hmid
  obtain ⟨⟨outcome, after⟩, hp, hafter⟩ := (Option.any_eq_true _ _).mp hend
  obtain ⟨hnone, huser⟩ := Bool.and_eq_true_iff.mp hafter
  obtain ⟨p, hresolved⟩ := exists_resolved_of_any hgate
  have hgone : after.ledger.get? (.const "Gate") = none := Option.isNone_iff_eq_none.mp hnone
  exact ⟨e, outcome, after, p, he, hp, hresolved, hgone, exists_resolved_of_any huser⟩

/-- The gate is resolved for its user, and unknown again when the root fails for its depth, while
the user stays resolved. -/
theorem arch_loses_gate : Catalog.build arch = .ok archCatalog ∧ ∃ answer next,
    (Prover.start archCatalog ⟨some 4, .strict⟩ : Prover Unit).compile 43 (.const "Root") =
      some (answer, next) ∧
    (∃ e ∈ Knowledge.empty.trace archCatalog ⟨some 4, .strict⟩ 43 (.const "Root"), ∃ p,
      e.ledger.get? (.const "Gate") = some (.resolved p)) ∧
    next.known.ledger.get? (.const "Gate") = none ∧
    ∃ q, next.known.ledger.get? (.const "User") = some (.resolved q) := by
  obtain ⟨e, outcome, after, p, he, hp, hgate, hgone, huser⟩ := arch_search
  exact ⟨build_arch, _, _, Prover.compile_of_prove hp, ⟨e, he, p, hgate⟩, hgone, huser⟩

theorem arch_discards_gate : ∃ a b reached later p,
    Course archCatalog ⟨some 4, .strict⟩ (.idle Knowledge.empty) reached a ∧
    Course archCatalog ⟨some 4, .strict⟩ a later b ∧
    a.states (.const "Gate") = some (.resolved p) ∧
    ∃ e ∈ later, e.Discards (.const "Gate") := by
  obtain ⟨e, outcome, after, p, he, hp, hgate, hgone, _⟩ := arch_search
  have hs : Session archCatalog ⟨some 4, .strict⟩ [] (.start archCatalog ⟨some 4, .strict⟩) :=
    .start (V := Unit)
  have hsearches := Knowledge.searches_of_mem_trace he
  rw [hsearches.trace] at he
  rw [hsearches.prove] at hp
  obtain ⟨_, _, _, hreached, hrun⟩ := (Course.rest.begin hsearches).through he
  have hlater := Course.rest.run (hrun _ hp)
  refine ⟨_, _, _, _, p, hreached, hlater, hgate, ?_⟩
  by_contra hkept
  push Not at hkept
  have hstands := (resolved_stands_iff build_arch hs hreached hlater hgate).1.mpr hkept
  cases hgone.symm.trans hstands

end Clausal
