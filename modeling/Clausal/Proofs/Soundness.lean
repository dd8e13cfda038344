import Clausal.Proofs.Surviving
import Clausal.Proofs.Calls

namespace Clausal

/-- The proofs found are sound, numbered as the stack asks, and those in the ledger lead to what
the ledger knows. -/
structure ProofGraph (catalog : Catalog) (frames : List Frame) (states : States)
    (table : ProofTable) : Prop where
  sound : table.Sound catalog
  numbered : Numbered catalog frames table
  warranted : Warranted frames states table

/-- An edge of a requirement whose value is needed at once. -/
def ProofTable.LeadsStrictly (table : ProofTable) (p q : Proof) : Prop :=
  ∃ e ∈ p.edges, e.deferrable = false ∧ table.get? e.link.target = some q

variable {catalog : Catalog} {policy : Policy}

theorem ProofTable.get?_empty (id : ProofId) : ProofTable.empty.get? id = none :=
  get?_eq_none_of_size_le (Nat.zero_le id)

theorem Numbered.nil (catalog : Catalog) (table : ProofTable) : Numbered catalog [] table :=
  ⟨by simp, by simp, by simp, by simp, by simp, by simp⟩

theorem ProofGraph.cut {s : Search} (h : ProofGraph catalog s.stack s.ledger.get? s.table)
    (ha : Aligned s.stack s.ledger.get?) (ht : s.top.trial = none) {failure : Failure}
    (hf : failure.isDepthExceeded = true) {frames : List Frame}
    (hcuts : Cuts (s.spread (.error failure)).get? s.top.low s.below frames) :
    ProofGraph catalog frames (s.spread (.error failure)).get? s.table := by
  have hw := Search.warranted_cut ha h.warranted ht hf hcuts
  refine ⟨h.sound, ?_, hw⟩
  have hbelow : Numbered catalog s.below s.table :=
    h.numbered.trails fun i f hfr => ⟨f, getElem?_concat_below hfr, .rfl⟩
  generalize hb : s.below = below at hcuts hbelow
  cases hcuts with
  | last => exact .nil catalog s.table
  | @next below parent top hc hp hr =>
    have haligned := Search.aligned_cut ha hf hb hc hp
    refine hbelow.progress hp fun r e low hans => hw.anchored haligned ?_ hans
    intro i f hfr
    rcases getElem?_concat_cases hfr with ⟨_, hfr⟩ | ⟨_, rfl⟩
    · exact (hbelow.fresh i f (getElem?_concat_below hfr)).1
    · rw [hp.same.2.1]
      exact (hbelow.fresh _ parent getElem?_concat_top).1

theorem ProofGraph.empty : ProofGraph catalog [] (fun _ => none) ProofTable.empty := by
  refine ⟨⟨?_, ?_, ?_, ?_⟩, .nil _ _, ⟨by simp, by simp, by simp⟩⟩ <;>
    simp [ProofTable.get?_empty]

section

variable {frames : List Frame} {states states' : States} {table : ProofTable}

theorem ProofGraph.forget (h : ProofGraph catalog [] states table) :
    ProofGraph catalog [] (fun _ => none) table :=
  ⟨h.sound, h.numbered, by simp, by simp, by simp⟩

theorem ProofGraph.push (hc : catalog.Indexed) {goal : Term}
    (h : ProofGraph catalog frames states table) (hg : states goal = none)
    (hs : ∀ g, states' g = if g = goal then some (.inProgress frames.length table.size)
      else states g) :
    ProofGraph catalog (frames ++ [Frame.start catalog frames.length goal table.size]) states'
      table.reserve.2 :=
  ⟨h.sound.reserve, h.numbered.push hc h.sound,
    (h.warranted.push catalog hg hs).extends (ProofTable.extends_reserve _)⟩

theorem ProofGraph.progress {below : List Frame} {top top' : Frame}
    (h : ProofGraph catalog (below ++ [top]) states table) (ha : Aligned (below ++ [top]) states)
    (hp : top.Progress states below.length top') :
    ProofGraph catalog (below ++ [top']) states table := by
  refine ⟨h.sound, h.numbered.progress hp fun r e low hans => ?_, h.warranted.progress ha hp⟩
  exact h.warranted.anchored ha (fun i f hf => (h.numbered.fresh i f hf).1) hans

theorem ProofGraph.refer (h : ProofGraph catalog frames states table) (j : Nat) :
    ProofGraph catalog (frames.modify j Frame.refer) states table := by
  refine ⟨h.sound, h.numbered.trails fun i f hf => ?_, h.warranted.refer j⟩
  obtain ⟨f₀, hf₀, ht⟩ := getElem?_refer hf
  exact ⟨f₀, hf₀, ht.trails⟩

end

theorem ProofGraph.keep {s : Search} (h : ProofGraph catalog s.stack s.ledger.get? s.table)
    (ha : Aligned s.stack s.ledger.get?) (ht : s.top.trial = none) (hcut : ¬s.top.IsCut)
    (ho : (s.verdict policy).isDepthExceeded = false) :
    ProofGraph catalog
      ((s.keep (s.verdict policy)).2.modify (s.below.length - 1) (Frame.lower s.top.low))
      (s.keep (s.verdict policy)).1.get? (s.recorded policy) := by
  refine ⟨Search.sound_recorded h.sound h.numbered, ?_,
    Search.warranted_keep ha h.numbered h.warranted ht hcut ho⟩
  refine Search.numbered_recorded h.numbered fun i f hf => ?_
  obtain ⟨f₀, hf₀, hi, htr, _⟩ := Search.keep_lowered ha ho hf
  exact ⟨f₀, hf₀, hi, htr⟩

/-- Searches keep their proofs in order. -/
theorem proofGraph_invariant (policy : Policy) (hc : catalog.Indexed) : Invariant catalog policy
    fun _ frames states table => ProofGraph catalog frames states table where
  nothing := .empty
  forget h := h.forget
  past h := h
  push _ h hg hs _ := h.push hc hg hs
  progress ha h hp := h.progress ha hp
  refer j h := h.refer j
  keep ha h ht _ hcut ho := h.keep ha ht hcut ho
  cut ha h ht _ _ _ hf hcuts := h.cut ha ht hf hcuts

/-- A requirement needed at once is met by a proof built before. -/
theorem ProofTable.Sound.builds_of_leadsStrictly {table : ProofTable} (hs : table.Sound catalog)
    {id : ProofId} {p q : Proof} (hp : table.get? id = some p) (h : table.LeadsStrictly p q) :
    table.Builds q p := by
  obtain ⟨e, he, hd, hq⟩ := h
  obtain ⟨r, subst, hfits⟩ := hs.fits id p hp
  obtain ⟨i, hi⟩ := List.mem_iff_getElem?.mp he
  obtain ⟨req, _, hmeets⟩ := hfits.meet i e hi
  obtain ⟨target, hlink⟩ := hmeets.built (hmeets.deferrable ▸ hd)
  rw [hlink] at hq
  exact ⟨e, he, target, hlink, hq⟩

/-- A cycle in a recorded proof passes through a deferrable requirement. -/
theorem ProofTable.Sound.not_leadsStrictly_cycle {table : ProofTable} (hs : table.Sound catalog)
    {id : ProofId} {p : Proof} (hp : table.get? id = some p) :
    ¬Relation.TransGen table.LeadsStrictly p p := by
  have builds : ∀ q, Relation.TransGen table.LeadsStrictly p q →
      (∃ id, table.get? id = some q) ∧ Relation.TransGen table.Builds q p := by
    intro q hq
    induction hq with
    | single h =>
      have hb := hs.builds_of_leadsStrictly hp h
      obtain ⟨e, _, _, hq⟩ := h
      exact ⟨⟨_, hq⟩, .single hb⟩
    | tail _ h ih =>
      obtain ⟨⟨id', hid'⟩, hb⟩ := ih
      have hb' := hs.builds_of_leadsStrictly hid' h
      obtain ⟨e, _, _, hq⟩ := h
      exact ⟨⟨_, hq⟩, .head hb' hb⟩
  -- Strict edges are built links, and those lead to proofs recorded before.
  intro hcycle
  have hacc : Acc (Relation.TransGen table.Builds) p := (hs.built id p hp).transGen
  have hself := (builds p hcycle).2
  induction hacc with
  | intro q _ ih => exact ih q hself hp builds hcycle hself

/-- A plan proves a goal: every proof that it leads to takes a rule whose head matches its goal and
has one edge in order for each requirement, every edge is met by a proof of the very goal that the
requirement's pattern becomes, and no cycle consists of requirements needed at once. -/
structure Plan.Proves (catalog : Catalog) (plan : Plan) (goal : Term) : Prop where
  goal : plan.proof.goal = goal
  fits : ∀ q, Relation.ReflTransGen plan.table.Leads plan.proof q →
    ∃ r subst, q.Fits catalog r subst
  met : ∀ q, Relation.ReflTransGen plan.table.Leads plan.proof q → ∀ e ∈ q.edges,
    ∃ q', plan.table.get? e.link.target = some q' ∧ q'.goal = e.goal
  deferred : ∀ q, Relation.ReflTransGen plan.table.Leads plan.proof q →
    ¬Relation.TransGen plan.table.LeadsStrictly q q

/-- Every plan that a call gives proves the call's goal. -/
theorem compile_proves {clauses : List (String × Clause)} {V : Type} {past : List Search}
    {s next : Prover V} {budget : Nat} {goal : Term} {plan : Plan}
    (hb : Catalog.build clauses = .ok catalog) (hs : Session catalog policy past s)
    (hc : s.compile budget goal = some (.ok plan, next)) : plan.Proves catalog goal := by
  have kept := (proofGraph_invariant policy (Catalog.build_indexed hb)).kept
  obtain ⟨hcatalog, hpolicy, hlearnt⟩ := hs.learnt
  have hknown := kept.learnt hlearnt
  obtain ⟨p, known, rfl, hprove⟩ : ∃ p known, plan = ⟨known.table, p⟩ ∧
      s.known.prove catalog policy budget goal = some (.ok p, known) := by
    unfold Prover.compile at hc
    rw [hcatalog, hpolicy] at hc
    split at hc
    · simp at hc
    next p known hp => cases hc; exact ⟨p, known, rfl, hp⟩
    · simp at hc
  obtain ⟨_, graph⟩ : Aligned [] known.ledger.get? ∧
      ProofGraph catalog [] known.ledger.get? known.table :=
    kept.prove past hknown hprove
  have hp : known.ledger.get? goal = some (.resolved p) := by
    rcases Knowledge.prove_answered hknown.1 hprove with ⟨_, h⟩ | h | h
    · cases h
    · cases h
    · cases h with
      | resolved hp => exact hp
  obtain ⟨hgoal, hp, hwhole⟩ := graph.warranted.resolved goal p hp
  have recorded : ∀ q, Relation.ReflTransGen known.table.Leads p q →
      ∃ id, known.table.get? id = some q := by
    intro q hq
    rcases Relation.ReflTransGen.cases_tail hq with rfl | ⟨_, _, e, _, he⟩
    · exact ⟨_, hp⟩
    · exact ⟨_, he⟩
  refine ⟨hgoal, fun q hq => ?_, hwhole, fun q hq => ?_⟩
  · obtain ⟨id, hid⟩ := recorded q hq
    exact graph.sound.fits id q hid
  · obtain ⟨id, hid⟩ := recorded q hq
    exact graph.sound.not_leadsStrictly_cycle hid

/-- Two rules of which each needs the other, one of them only later on. -/
def knot : List (String × Clause) :=
  [("p", ⟨"node", .const "Node", [⟨.const "Edge", true⟩]⟩),
    ("p", ⟨"edge", .const "Edge", [⟨.const "Node", false⟩]⟩)]

def knotCatalog : Catalog where
  rules := [⟨0, "p::node", .const "Node", [⟨.const "Edge", true⟩]⟩,
    ⟨1, "p::edge", .const "Edge", [⟨.const "Node", false⟩]⟩]
  index := [("Node", [0]), ("Edge", [1])]
  arities := [("Node", 0), ("Edge", 0)]

theorem build_knot : Catalog.build knot = .ok knotCatalog := by decide

theorem knot_compiles {V : Type} : ∃ plan next,
    (Prover.start knotCatalog Policy.default : Prover V).compile 9 (.const "Edge") =
      some (.ok plan, next) := by
  have hok : ((Prover.start knotCatalog Policy.default : Prover V).compile 9
      (.const "Edge")).any (fun a => a.1.isOk) = true := by rfl
  obtain ⟨⟨answer, next⟩, h, ha⟩ := Option.any_eq_true _ _ |>.mp hok
  cases answer with
  | error f => cases ha
  | ok plan => exact ⟨plan, next, h⟩

theorem knot_plan_proves : ∃ plan next,
    (Prover.start knotCatalog Policy.default : Prover Unit).compile 9 (.const "Edge") =
      some (.ok plan, next) ∧ plan.Proves knotCatalog (.const "Edge") := by
  have hok : ((Prover.start knotCatalog Policy.default : Prover Unit).compile 9
      (.const "Edge")).any (fun a => a.1.isOk) = true := by decide
  obtain ⟨⟨answer, next⟩, h, ha⟩ := Option.any_eq_true _ _ |>.mp hok
  cases answer with
  | error f => cases ha
  | ok plan =>
    have hb : Catalog.build knot = .ok knotCatalog := by decide
    exact ⟨plan, next, h, compile_proves hb .start h⟩

end Clausal
