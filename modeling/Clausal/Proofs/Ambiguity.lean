import Clausal.Proofs.Foundations
import Clausal.Proofs.Tidiness

namespace Clausal

/-- A goal is recorded as ambiguous, and a rule with the name is among those that are said to prove
it. -/
def Listed (states : States) (goal : Term) (name : String) : Prop :=
  ∃ g chain names, states goal = some (.failed (.ambiguous g chain names)) ∧ name ∈ names

/-- A rule with the name does prove the goal. -/
def Founded (catalog : Catalog) (goal : Term) (name : String) : Prop :=
  ∃ r ∈ catalog.rules, r.name = name ∧ r.Proves catalog goal

theorem unproved_ne_ambiguous (goal : Term) (chain : GoalChain) (attempted : List Attempt)
    (g : Term) (chain' : GoalChain) (names : List String) :
    unproved goal chain attempted ≠ .ambiguous g chain' names := by
  rcases unproved_cases goal chain attempted with he | ⟨_, _, he⟩
  · simp [he]
  · simp [he]

theorem Frame.outcome_ambiguous {f : Frame} {policy : Policy} {chain chain' : GoalChain} {g : Term}
    {names : List String} (hc : ¬f.IsCut)
    (h : f.outcome policy chain = .error (.ambiguous g chain' names)) :
    names = f.successes.map fun w => w.rule.name := by
  rcases f.outcome_cases policy chain with ⟨c, hcut, _, _⟩ | ⟨_, _, ho⟩ | ⟨_, _, _, ho⟩ | ⟨_, w, _, ho⟩
  · exact absurd ⟨c, hcut⟩ hc
  · exact absurd (Except.error.inj (ho.symm.trans h)) (unproved_ne_ambiguous _ _ _ _ _ _)
  · cases ho.symm.trans h
    rfl
  · cases ho.symm.trans h

theorem Failure.Shows.ambiguous {f : Failure} {g : Term} {chain : GoalChain} {names : List String}
    (h : f.Shows (.ambiguous g chain names)) : ∃ chain', f = .ambiguous g chain' names := by
  rcases h with rfl | ⟨chain', he⟩
  · exact ⟨chain, rfl⟩
  · unfold seenFrom at he
    cases f with
    | ambiguous goal old candidates =>
      dsimp only [chain?] at he
      split at he
      · cases he
        exact ⟨_, rfl⟩
      · cases he
        exact ⟨_, rfl⟩
    | noRule goal old attempted => dsimp only [chain?] at he; split at he <;> cases he
    | cyclicRule goal old rules => dsimp only [chain?] at he; split at he <;> cases he
    | depthExceeded goal old limit => dsimp only [chain?] at he; split at he <;> cases he
    | nonGroundGoal goal => cases he
    | invocation goal rule source => cases he
    | valueType goal expected => cases he

namespace Search

/-- The top frame fails for good, and an ambiguity parked on it becomes final with it. A rule that
is listed there may rest on a promise of a goal that has failed by then. -/
structure Leans (policy : Policy) (s : Search) (goal : Term) (name : String) : Prop where
  closing : s.Closing
  failed : (s.verdict policy).succeeded = false
  last : s.below.length ≤ s.top.low
  parked : ∃ g chain names above, s.ledger.get? goal =
    some (.provisional s.below.length (.error (.ambiguous g chain names)) above) ∧ name ∈ names
  listed : Listed (s.closed policy) goal name

/-- The proofs that the edges of a success lead to. -/
def proofsOf (s : Search) (w : Success) : Set Proof :=
  {q | ∃ e ∈ w.edges, ∃ q₀, s.table.get? e.link.target = some q₀ ∧
    Relation.ReflTransGen s.table.Leads q₀ q}

/-- A success of the top frame leads to an earlier proof of the frame's goal. -/
def Circular (s : Search) (w : Success) : Prop :=
  ∃ q ∈ s.proofsOf w, q.goal = s.top.goal

/-- The top frame ends with a final ambiguity, and one of its rules is met in a circle. The depth
bound can drop the entry of a goal and leave proofs that lead to one of the goal. -/
structure Circles (policy : Policy) (s : Search) (goal : Term) (name : String) : Prop where
  closing : s.Closing
  ended : s.top.goal = goal
  last : s.below.length ≤ s.top.low
  ambiguous : ∃ g chain names, s.verdict policy = .error (.ambiguous g chain names)
  circular : ∃ w ∈ s.top.successes, w.rule.name = name ∧ s.Circular w

/-- What the edges of a frame that rests on no other one lead to: proofs that are whole, or that
rest on the frame. -/
def Grounded (s : Search) (q : Proof) : Prop :=
  q.Whole s.table ∨
    ∃ g chain, s.ledger.get? g = some (.provisional s.below.length (.ok q) chain)

/-- An edge is a promise of the top frame's goal, or leads to a grounded proof of its own goal. -/
def Stands (s : Search) (e : Edge) : Prop :=
  (e.goal = s.top.goal ∧ s.table.get? e.link.target = none) ∨
    ∃ q, s.table.get? e.link.target = some q ∧ q.goal = e.goal ∧ s.Grounded q

variable {catalog : Catalog} {policy : Policy} {s : Search} {w : Success} {q q' : Proof} {e : Edge}

theorem mem_proofsOf_of_edge (he : e ∈ w.edges) (hq : s.table.get? e.link.target = some q) :
    q ∈ s.proofsOf w :=
  ⟨e, he, q, hq, .refl⟩

theorem mem_proofsOf_of_step (h : q ∈ s.proofsOf w) (he : e ∈ q.edges)
    (hq : s.table.get? e.link.target = some q') : q' ∈ s.proofsOf w := by
  obtain ⟨e₀, he₀, q₀, hq₀, hleads⟩ := h
  exact ⟨e₀, he₀, q₀, hq₀, hleads.tail ⟨e, he, hq⟩⟩

theorem recorded_of_mem_proofsOf (h : q ∈ s.proofsOf w) : ∃ id, s.table.get? id = some q := by
  obtain ⟨_, _, _, hq₀, hleads⟩ := h
  rcases Relation.ReflTransGen.cases_tail hleads with rfl | ⟨_, _, _, _, hq⟩
  · exact ⟨_, hq₀⟩
  · exact ⟨_, hq⟩

theorem Stands.grounded (h : s.Stands e) (hq : s.table.get? e.link.target = some q) :
    s.Grounded q := by
  rcases h with ⟨_, hnone⟩ | ⟨q', hq', _, hgrounded⟩
  · cases hnone.symm.trans hq
  · obtain rfl := Option.some.inj (hq.symm.trans hq')
    exact hgrounded

theorem stands_of_backed (ha : Aligned s.stack s.ledger.get?)
    (hg : ProofGraph catalog s.stack s.ledger.get? s.table) {within : Nat → Prop}
    (hb : e.Backed s.ledger.get? within) (hwithin : ∀ k, within k → s.below.length ≤ k) :
    s.Stands e := by
  cases hb with
  | @resolved q hq hid =>
    obtain ⟨hgoal, hrecorded, hwhole⟩ := hg.warranted.resolved _ q hq
    exact .inr ⟨q, hid ▸ hrecorded, hgoal, .inl hwhole⟩
  | @provisional k q chain hq hid hk =>
    obtain ⟨hgoal, hrecorded, _⟩ := hg.warranted.provisional _ k q chain hq
    have hlast : k = s.below.length := le_antisymm (le_of_provisional ha hq) (hwithin k hk)
    exact .inr ⟨q, hid ▸ hrecorded, hgoal, .inr ⟨e.goal, chain, hlast ▸ hq⟩⟩
  | @inProgress j id hj hid hk =>
    have hlast : j = s.below.length := le_antisymm (le_of_inProgress ha hj) (hwithin j hk)
    obtain ⟨hgoal, htop⟩ := inProgress_top ha (hlast ▸ hj)
    have hfresh := (hg.numbered.fresh _ s.top getElem?_concat_top).2
    exact .inl ⟨hgoal, by rw [← hid, htop, hfresh]⟩

/-- The edges of a grounded proof stand, as the edges of the frame do. -/
theorem Grounded.stands (h : s.Grounded q) (ha : Aligned s.stack s.ledger.get?)
    (hg : ProofGraph catalog s.stack s.ledger.get? s.table) (hs : s.Closing)
    (hlast : s.below.length ≤ s.top.low) (he : e ∈ q.edges) : s.Stands e := by
  rcases h with hwhole | ⟨g, chain, hparked⟩
  · obtain ⟨q', hq', hgoal, hwhole'⟩ := hwhole.edge he
    exact .inr ⟨q', hq', hgoal, .inl hwhole'⟩
  · obtain ⟨_, _, hbacked⟩ := hg.warranted.provisional g _ q chain hparked
    refine stands_of_backed ha hg (hbacked e he) fun k hk => ?_
    rcases hk with hk | ⟨j, f, hj, hf, hreach⟩
    · exact hk
    · rcases getElem?_concat_cases hf with ⟨hlt, _⟩ | ⟨_, rfl⟩
      · omega
      · rw [reach_top hs.1] at hreach
        omega

section

variable (hg : ProofGraph catalog s.stack s.ledger.get? s.table)
  (ha : Aligned s.stack s.ledger.get?) (hs : s.Closing) (hc : ¬s.top.IsCut)
  (hlast : s.below.length ≤ s.top.low)

include hg ha hs hc hlast

theorem stands_of_success (hw : w ∈ s.top.successes) (he : e ∈ w.edges) : s.Stands e := by
  have hbacked := hg.warranted.pending _ s.top e getElem?_concat_top (not_cutFrom_top hc)
    (.inr ⟨w, hw, he⟩)
  refine stands_of_backed ha hg hbacked fun k hk => ?_
  rw [reach_top hs.1] at hk
  exact le_trans hlast hk.1

/-- All that a success leads to is grounded, since promises lead to no recorded proof. -/
theorem grounded_of_mem_proofsOf (hw : w ∈ s.top.successes) (hq : q ∈ s.proofsOf w) :
    s.Grounded q := by
  obtain ⟨e, he, q₀, hq₀, hleads⟩ := hq
  induction hleads with
  | refl => exact (stands_of_success hg ha hs hc hlast hw he).grounded hq₀
  | tail _ hstep ih =>
    obtain ⟨e', he', hq'⟩ := hstep
    exact (ih.stands ha hg hs hlast he').grounded hq'

/-- A rule that a final frame has met proves the frame's goal, unless it goes in a circle. -/
theorem proves_of_success (hw : w ∈ s.top.successes) (hcircle : ¬s.Circular w) :
    w.rule.Proves catalog s.top.goal := by
  have hpending : ∀ e ∈ w.edges, s.top.Pending e := fun e he => .inr ⟨w, hw, he⟩
  have hanchored : ∀ e, e ∈ w.edges ∨ (∃ q ∈ s.proofsOf w, e ∈ q.edges) → e.Anchored s.table := by
    rintro e (he | ⟨q, hq, he⟩)
    · exact hg.numbered.anchored _ s.top e getElem?_concat_top (hpending e he)
    · obtain ⟨id, hid⟩ := recorded_of_mem_proofsOf hq
      exact hg.sound.anchored id q hid e he
  have hstands : ∀ e, e ∈ w.edges ∨ (∃ q ∈ s.proofsOf w, e ∈ q.edges) → s.Stands e := by
    rintro e (he | ⟨q, hq, he⟩)
    · exact stands_of_success hg ha hs hc hlast hw he
    · exact (grounded_of_mem_proofsOf hg ha hs hc hlast hw hq).stands ha hg hs hlast he
  obtain ⟨hmem, subst, hunify, hlen, hmeet⟩ :=
    (hg.numbered.sound _ s.top getElem?_concat_top).successes w hw
  have hunfolding : Unfolding catalog s.table s.top.goal w.rule subst w.edges (s.proofsOf w) := by
    refine ⟨hmem, hunify, hlen, hmeet, fun q hq => recorded_of_mem_proofsOf hq,
      fun q hq hgoal => hcircle ⟨q, hq, hgoal⟩, fun e he => ?_⟩
    rcases hstands e he with ⟨hgoal, hnone⟩ | ⟨q', hq', hgoal, _⟩
    · refine .inl ⟨hgoal, fun id hl => ?_⟩
      obtain ⟨q, hq, _⟩ := (hanchored e he).built id hl
      rw [hl] at hnone
      cases hnone.symm.trans hq
    · refine .inr ⟨q', ?_, hq', hgoal⟩
      rcases he with he | ⟨q, hq, he⟩
      · exact mem_proofsOf_of_edge he hq'
      · exact mem_proofsOf_of_step hq he hq'
  exact hunfolding.proves hg.sound

end

/-- A rule that is listed when a frame ends was listed before, or proves the goal, or leans on the
frame, or goes in a circle. -/
theorem listed_closed (hg : ProofGraph catalog s.stack s.ledger.get? s.table)
    (ha : Aligned s.stack s.ledger.get?) (hs : s.Closing) (hc : ¬s.top.IsCut) {goal : Term}
    {name : String} (h : Listed (s.closed policy) goal name) :
    (Listed s.ledger.get? goal name ∧ s.closed policy goal = s.ledger.get? goal) ∨
      Founded catalog goal name ∨ s.Leans policy goal name ∨ s.Circles policy goal name := by
  have hlisted := h
  obtain ⟨g, chain, names, hst, hname⟩ := hlisted
  rcases closed_failed ha hc hst with ⟨rfl, hlast, hv⟩ | hbefore | ⟨hlast, hfailed, above, hb⟩
  · have hnames := Frame.outcome_ambiguous hc hv
    rw [hnames] at hname
    obtain ⟨w, hw, rfl⟩ := List.mem_map.mp hname
    by_cases hcircle : s.Circular w
    · exact .inr (.inr (.inr ⟨hs, rfl, hlast, ⟨g, chain, names, hv⟩, w, hw, rfl, hcircle⟩))
    · have hmem := ((hg.numbered.sound _ s.top getElem?_concat_top).successes w hw).1
      exact .inr (.inl ⟨w.rule, hmem, rfl, proves_of_success hg ha hs hc hlast hw hcircle⟩)
  · exact .inl ⟨⟨g, chain, names, hbefore, hname⟩, hst.trans hbefore.symm⟩
  · have ho : (s.verdict policy).isDepthExceeded = false := not_verdict_isDepthExceeded hc
    -- A success that the failure reaches turns into a failure, but never into an ambiguity.
    rcases spread_cases ho goal with hsame | ⟨_, _, _, _, _, _, _, _, _, _, hspread⟩
    · exact .inr (.inr (.inl ⟨hs, hfailed, hlast,
        ⟨g, chain, names, above, hsame.symm.trans hb, hname⟩, h⟩))
    · cases hspread.symm.trans hb

theorem Circles.listed {goal : Term} {name : String} (h : s.Circles policy goal name) :
    Listed (s.closed policy) goal name := by
  obtain ⟨g, chain, names, hv⟩ := h.ambiguous
  obtain ⟨w, hw, hname, _⟩ := h.circular
  have ho : (s.verdict policy).isDepthExceeded = false := by
    rw [hv]
    rfl
  have hc : ¬s.top.IsCut := fun hc => by
    cases ho.symm.trans (verdict_isDepthExceeded.mpr hc)
  refine ⟨g, chain, names, ?_, ?_⟩
  · rw [← h.ended, closed, keep_top ho, if_neg (Nat.not_lt.mpr h.last), hv]
    rfl
  · rw [Frame.outcome_ambiguous hc hv]
    exact List.mem_map.mpr ⟨w, hw, hname⟩

end Search

theorem Listed.outcome {states : States} {goal : Term} {name : String}
    (h : Listed states goal name) :
    ∃ outcome, (states goal).bind GoalState.outcome? = some outcome := by
  obtain ⟨g, chain, names, hst, _⟩ := h
  exact ⟨.error (.ambiguous g chain names), by rw [hst]; rfl⟩

variable {catalog : Catalog} {policy : Policy} {past : List Search}

/-- Searches list rules that prove the goal, but for those that leaned on a failed goal or went in a
circle. The goal has the failure of that moment still. -/
theorem listed_invariant (policy : Policy) (hi : catalog.Indexed) : Invariant catalog policy
    fun past frames states table => ProofGraph catalog frames states table ∧
      ∀ goal name, Listed states goal name → Founded catalog goal name ∨
        ∃ e ∈ past, (e.Leans policy goal name ∨ e.Circles policy goal name) ∧
          e.Lasts policy states goal := by
  refine (proofGraph_invariant policy hi).and
    (J := fun past states => ∀ goal name, Listed states goal name → Founded catalog goal name ∨
      ∃ e ∈ past, (e.Leans policy goal name ∨ e.Circles policy goal name) ∧
        e.Lasts policy states goal) ?_ ?_ ?_ ?_ ?_
  · rintro past goal name ⟨_, _, _, hn, _⟩
    cases hn
  · intro past s states h goal name hl
    exact (h goal name hl).imp_right fun hevent => Search.exists_lasts_later s hevent rfl
  · rintro past states states' goal n id h _ hs goal' name ⟨g, chain, names, hst, hname⟩
    have hsame : states' goal' = states goal' := by
      rw [hs] at hst ⊢
      split at hst
      · cases hst
      next hne => rw [if_neg hne]
    refine (h goal' name ⟨g, chain, names, hsame.symm.trans hst, hname⟩).imp_right ?_
    rintro ⟨e, he, hcase, hlasts⟩
    exact ⟨e, he, hcase, hlasts.congr (by rw [hsame])⟩
  · intro past s ha hg hs hc h goal name hl
    have hnow : s ∈ past ++ [s] := List.mem_append_right _ (List.mem_singleton_self _)
    rcases s.listed_closed hg ha hs hc hl with ⟨hbefore, hsame⟩ | hfounded | hevent
    · exact (h goal name hbefore).imp_right fun hevent =>
        Search.exists_lasts_later s hevent (by rw [hsame])
    · exact .inl hfounded
    · obtain ⟨outcome, hout⟩ := hl.outcome
      exact .inr ⟨s, hnow, hevent, outcome, hout, hout⟩
  · rintro past s _ _ _ hc h goal name ⟨g, chain, names, hst, hname⟩
    rcases Search.closed_of_cut_states hc goal with ⟨_, hnone⟩ | ⟨_, hsame⟩
    · cases hnone.symm.trans hst
    · have hbefore := h goal name ⟨g, chain, names, hsame.symm.trans hst, hname⟩
      exact hbefore.imp_right fun hevent => Search.exists_lasts_later s hevent (by rw [hsame])

/-- An ambiguity that is reported is the one recorded for the goal. -/
theorem Prover.compile_ambiguous {V : Type} {s next : Prover V} {budget : Nat} {goal g : Term}
    {chain : GoalChain} {names : List String} (ha : Aligned [] s.known.ledger.get?)
    (hc : s.compile budget goal = some (.error (.ambiguous g chain names), next)) :
    ∃ chain', next.known.ledger.get? goal = some (.failed (.ambiguous g chain' names)) := by
  obtain ⟨outcome, known, hp, he, rfl⟩ := Prover.compile_outcome hc
  cases outcome with
  | ok p => cases he
  | error f =>
    cases he
    rcases Knowledge.prove_answered ha hp with ⟨_, hcase⟩ | hcase | hcase
    · cases hcase
    · cases hcase
    · cases hcase with
      | failed hf hshows =>
        obtain ⟨chain', rfl⟩ := hshows.ambiguous
        exact ⟨chain', hf⟩

/-- An ambiguity that a call reports lists only rules that prove the goal exactly if this holds of the
rules that were listed as the failure of the goal leaned on one that failed for good, or in a circle
through an earlier proof, where the goal has that failure still. -/
theorem ambiguous_founded_iff {clauses : List (String × Clause)} {V : Type} {s next : Prover V}
    {budget : Nat} {goal g : Term} {chain : GoalChain} {names : List String}
    (hb : Catalog.build clauses = .ok catalog) (hs : Session catalog policy past s)
    (hc : s.compile budget goal = some (.error (.ambiguous g chain names), next)) :
    (∀ name ∈ names, Founded catalog goal name) ↔
      ∀ e ∈ past ++ s.known.trace catalog policy budget goal, ∀ name,
        e.Leans policy goal name ∨ e.Circles policy goal name →
          e.Lasts policy next.known.ledger.get? goal → Founded catalog goal name := by
  have kept := (listed_invariant policy (Catalog.build_indexed hb)).kept
  obtain ⟨hidle, _, hlisted⟩ := kept.learnt (hs.compile hc).learnt.2.2
  obtain ⟨chain', hentry⟩ := s.compile_ambiguous (kept.learnt hs.learnt.2.2).1 hc
  constructor
  · intro h e _ name hcase hlasts
    obtain ⟨g', _, names', hclosed, hname⟩ : Listed (e.closed policy) goal name :=
      hcase.elim (fun hl => hl.listed) (fun hcircles => hcircles.listed)
    refine h name ?_
    rcases hlasts.idle hidle with ⟨p, _, hnow⟩ | ⟨f, hout, hnow⟩
    · cases hnow.symm.trans hentry
    · cases hnow.symm.trans hentry
      rw [hclosed] at hout
      cases hout
      exact hname
  · intro h name hname
    rcases hlisted goal name ⟨g, chain', names, hentry, hname⟩ with hfounded |
      ⟨e, he, hcase, hlasts⟩
    · exact hfounded
    · exact h e he name hcase hlasts

/-- An answer names a rule as one of several that prove the goal. -/
def namesRival (name : String) : Except Failure Plan → Bool
  | .error (.ambiguous _ _ names) => names.contains name
  | _ => false

theorem exists_of_namesRival {name : String} {answer : Except Failure Plan}
    (h : namesRival name answer = true) :
    ∃ g chain names, answer = .error (.ambiguous g chain names) ∧ name ∈ names := by
  unfold namesRival at h
  split at h
  next g chain names => exact ⟨g, chain, names, rfl, List.contains_iff_mem.mp h⟩
  next => cases h

/-- An inner goal, which an outer one that fails needs later on. -/
def hollow : List (String × Clause) :=
  [("p", ⟨"outer", .const "Outer", [⟨.const "Inner", true⟩, ⟨.const "Missing", false⟩]⟩),
    ("p", ⟨"inner_outer", .const "Inner", [⟨.const "Outer", true⟩]⟩),
    ("p", ⟨"inner", .const "Inner", []⟩)]

def hollowOuter : Rule :=
  ⟨0, "p::outer", .const "Outer", [⟨.const "Inner", true⟩, ⟨.const "Missing", false⟩]⟩

def hollowInner : Rule :=
  ⟨1, "p::inner_outer", .const "Inner", [⟨.const "Outer", true⟩]⟩

def hollowCatalog : Catalog where
  rules := [hollowOuter, hollowInner, ⟨2, "p::inner", .const "Inner", []⟩]
  index := [("Outer", [0]), ("Inner", [1, 2])]
  arities := [("Outer", 0), ("Inner", 0), ("Missing", 0)]

theorem build_hollow : Catalog.build hollow = .ok hollowCatalog := by decide

/-- The rule needs the outer goal, whose only rule needs a goal without rules. -/
theorem not_founded_hollowInner : ¬Founded hollowCatalog (.const "Inner") hollowInner.name := by
  rintro ⟨r, hr, hname, goals, rule, hchoice, hinner, rfl⟩
  have hnamed : ∀ r ∈ hollowCatalog.rules, r.name = hollowInner.name → r = hollowInner := by decide
  have houterRule : ∀ r ∈ hollowCatalog.rules, (Term.const "Outer").fits r.head = true →
      r = hollowOuter := by decide
  have hnoRule : ∀ r ∈ hollowCatalog.rules, (Term.const "Missing").fits r.head ≠ true := by decide
  have hunifyInner : unify (.const "Inner") hollowInner.head = .ok .empty := rfl
  have hunifyOuter : unify (.const "Outer") hollowOuter.head = .ok .empty := rfl
  have houter : Term.const "Outer" ∈ goals :=
    hchoice.mem_of_requirement hinner (hnamed _ hr hname) hunifyInner (List.mem_singleton_self _) rfl
  have hsecond := houterRule _ (hchoice.mem _ houter) (hchoice.fits houter)
  have hmissing : Term.const "Missing" ∈ goals :=
    hchoice.mem_of_requirement houter hsecond hunifyOuter
      (List.mem_cons_of_mem _ (List.mem_singleton_self _)) rfl
  exact hnoRule _ (hchoice.mem _ hmissing) (hchoice.fits hmissing)

/-- After a call for the outer goal, the inner one is ambiguous between its two rules. -/
theorem hollow_compile_inner : ∃ past, ∃ s next : Prover Unit, ∃ g chain names,
    Session hollowCatalog Policy.default past s ∧
      s.compile 0 (.const "Inner") = some (.error (.ambiguous g chain names), next) ∧
        hollowInner.name ∈ names := by
  have hany : ((Prover.start hollowCatalog Policy.default : Prover Unit).compile 12
      (.const "Outer")).any (fun a => (a.2.compile 0 (.const "Inner")).any fun b =>
        namesRival hollowInner.name b.1) = true := by decide +kernel
  obtain ⟨⟨outer, s⟩, houter, hsecond⟩ := (Option.any_eq_true _ _).mp hany
  obtain ⟨⟨inner, next⟩, hinner, hnames⟩ := (Option.any_eq_true _ _).mp hsecond
  have hs : Session hollowCatalog Policy.default _ s := .compile .start houter
  obtain ⟨g, chain, names, rfl, hname⟩ := exists_of_namesRival hnames
  exact ⟨_, s, next, g, chain, names, hs, hinner, hname⟩

/-- One of the rules that are said to prove the inner goal is the first of no proof. -/
theorem hollow_lists_unfounded : Catalog.build hollow = .ok hollowCatalog ∧
    ∃ past, ∃ s next : Prover Unit, ∃ budget g chain names,
      Session hollowCatalog Policy.default past s ∧
        s.compile budget (.const "Inner") = some (.error (.ambiguous g chain names), next) ∧
          ∃ name ∈ names, ¬Founded hollowCatalog (.const "Inner") name := by
  obtain ⟨past, s, next, g, chain, names, hs, hc, hname⟩ := hollow_compile_inner
  exact ⟨build_hollow, past, s, next, 0, g, chain, names, hs, hc, _, hname, not_founded_hollowInner⟩

theorem hollow_leans_inner : ∃ past, ∃ s next : Prover Unit, ∃ answer,
    Session hollowCatalog Policy.default past s ∧
      s.compile 0 (.const "Inner") = some (answer, next) ∧
      ∃ e ∈ past ++ s.known.trace hollowCatalog Policy.default 0 (.const "Inner"), ∃ name,
        (e.Leans Policy.default (.const "Inner") name ∨
          e.Circles Policy.default (.const "Inner") name) ∧
            e.Lasts Policy.default next.known.ledger.get? (.const "Inner") ∧
              ¬Founded hollowCatalog (.const "Inner") name := by
  obtain ⟨past, s, next, g, chain, names, hs, hc, hname⟩ := hollow_compile_inner
  refine ⟨past, s, next, _, hs, hc, ?_⟩
  by_contra hnone
  push Not at hnone
  have hall := (ambiguous_founded_iff build_hollow hs hc).mpr fun e he name h hlasts =>
    hnone e he name h hlasts
  exact not_founded_hollowInner (hall _ hname)

end Clausal
