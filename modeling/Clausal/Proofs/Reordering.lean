import Clausal.Proofs.PlainChoice
import Clausal.Proofs.Registration

namespace Clausal

/-- The same clause up to the order of its requirements. -/
structure Clause.Reorders (c c' : Clause) : Prop where
  name : c'.name = c.name
  head : c'.head = c.head
  body : c.body.Perm c'.body

/-- The same clauses of the same providers in any order, each with its requirements in any order. -/
def Reordered (clauses clauses' : List (String × Clause)) : Prop :=
  ∃ shuffled, clauses.Perm shuffled ∧
    List.Forall₂ (fun e e' => e'.1 = e.1 ∧ e.2.Reorders e'.2) shuffled clauses'

/-- The same rule up to its number and the order of its requirements. -/
structure Rule.Reorders (r r' : Rule) : Prop where
  name : r'.name = r.name
  head : r'.head = r.head
  body : r.body.Perm r'.body

theorem Clause.Reorders.toRule {c c' : Clause} (h : c.Reorders c') {provider provider' : String}
    (hp : provider' = provider) (id id' : RuleId) :
    (c.toRule id provider).Reorders (c'.toRule id' provider') where
  name := by simp only [Clause.toRule, hp, h.name]
  head := h.head
  body := h.body

theorem Rule.Reorders.symm {r r' : Rule} (h : r.Reorders r') : r'.Reorders r :=
  ⟨h.name.symm, h.head.symm, h.body.symm⟩

namespace Catalog

/-- Two catalogs with the same rules, told by their names. -/
structure Reorders (catalog catalog' : Catalog) : Prop where
  indexed : catalog.Indexed
  indexed' : catalog'.Indexed
  distinct : (catalog.rules.map Rule.name).Nodup
  distinct' : (catalog'.rules.map Rule.name).Nodup
  forth : ∀ r ∈ catalog.rules, ∃ r' ∈ catalog'.rules, r.Reorders r'
  back : ∀ r' ∈ catalog'.rules, ∃ r ∈ catalog.rules, r.Reorders r'

/-- Two catalogs have a rule each that are the same rule. -/
structure Pairs (catalog catalog' : Catalog) (r r' : Rule) : Prop where
  mem : r ∈ catalog.rules
  mem' : r' ∈ catalog'.rules
  reorders : r.Reorders r'

/-- The same rules of two catalogs succeed on a goal. -/
def SucceedAlike (catalog catalog' : Catalog) (tie : TieBreak) (goal : Term) : Prop :=
  ∀ r r', catalog.Pairs catalog' r r' →
    (catalog.Succeeds tie goal r ↔ catalog'.Succeeds tie goal r')

variable {catalog catalog' : Catalog} {tie : TieBreak} {goal : Term} {r r' : Rule}

theorem Pairs.symm (h : catalog.Pairs catalog' r r') : catalog'.Pairs catalog r' r :=
  ⟨h.mem', h.mem, h.reorders.symm⟩

theorem SucceedAlike.symm (h : catalog.SucceedAlike catalog' tie goal) :
    catalog'.SucceedAlike catalog tie goal :=
  fun r' r hp => (h r r' hp.symm).symm

namespace Reorders

theorem symm (h : catalog.Reorders catalog') : catalog'.Reorders catalog where
  indexed := h.indexed'
  indexed' := h.indexed
  distinct := h.distinct'
  distinct' := h.distinct
  forth r' hr' := by
    obtain ⟨r, hr, hrr⟩ := h.back r' hr'
    exact ⟨r, hr, hrr.symm⟩
  back r hr := by
    obtain ⟨r', hr', hrr⟩ := h.forth r hr
    exact ⟨r', hr', hrr.symm⟩

theorem exists_pairs (h : catalog.Reorders catalog') (hr : r ∈ catalog.rules) :
    ∃ r', catalog.Pairs catalog' r r' := by
  obtain ⟨r', hr', hrr⟩ := h.forth r hr
  exact ⟨r', hr, hr', hrr⟩

theorem exists_pairs' (h : catalog.Reorders catalog') (hr' : r' ∈ catalog'.rules) :
    ∃ r, catalog.Pairs catalog' r r' := by
  obtain ⟨r, hr, hrr⟩ := h.back r' hr'
  exact ⟨r, hr, hr', hrr⟩

theorem needs (h : catalog.Reorders catalog') {subgoal : Term} (hn : catalog.Needs goal subgoal) :
    catalog'.Needs goal subgoal := by
  obtain ⟨r, hr, subst, hu, q, hq, ha⟩ := hn
  obtain ⟨r', hp⟩ := h.exists_pairs hr
  exact ⟨r', hp.mem', subst, hp.reorders.head ▸ hu, q, hp.reorders.body.mem_iff.mp hq, ha⟩

theorem needs_eq (h : catalog.Reorders catalog') : catalog'.Needs = catalog.Needs := by
  funext goal subgoal
  exact propext ⟨h.symm.needs, h.needs⟩

theorem grounded (h : catalog.Reorders catalog') (hground : catalog.Grounded goal) :
    catalog'.Grounded goal := by
  unfold Grounded
  rw [h.needs_eq]
  exact hground

/-- A rule succeeds in both catalogs if a rule is picked in both for each goal that is needed. -/
theorem succeeds (h : catalog.Reorders catalog') (hground : catalog.Grounded goal)
    (hsub : ∀ subgoal, catalog.Needs goal subgoal → (∃ r, catalog.Picks tie subgoal r) →
      ∃ r', catalog'.Picks tie subgoal r') (hp : catalog.Pairs catalog' r r')
    (hr : catalog.Succeeds tie goal r) : catalog'.Succeeds tie goal r' := by
  obtain ⟨subst, hu, hbody⟩ := (succeeds_iff h.indexed hground hp.mem).mp hr
  refine (succeeds_iff h.indexed' (h.grounded hground) hp.mem').mpr
    ⟨subst, hp.reorders.head ▸ hu, fun q hq => ?_⟩
  have hmem : q ∈ r.body := hp.reorders.body.mem_iff.mpr hq
  obtain ⟨subgoal, ha, hpicks⟩ := hbody q hmem
  exact ⟨subgoal, ha, hsub subgoal ⟨r, hp.mem, subst, hu, q, hmem, ha⟩ hpicks⟩

theorem picks (h : catalog.Reorders catalog') (hs : catalog.SucceedAlike catalog' tie goal)
    (hp : catalog.Pairs catalog' r r') (hr : catalog.Picks tie goal r) :
    catalog'.Picks tie goal r' := by
  refine ⟨(hs r r' hp).mp hr.1, fun other' hother' hne' => ?_⟩
  obtain ⟨other, hpair⟩ := h.exists_pairs' hother'.1
  have hother : catalog.Succeeds tie goal other := (hs other other' hpair).mpr hother'
  have hne : other ≠ r := by
    intro he
    have hname : other'.name = r'.name := by
      rw [hpair.reorders.name, hp.reorders.name, he]
    exact hne' (List.inj_on_of_nodup_map h.distinct' hpair.mem' hp.mem' hname)
  obtain ⟨htie, hdominates⟩ := hr.2 other hother hne
  rw [hp.reorders.head, hpair.reorders.head]
  exact ⟨htie, hdominates⟩

theorem exists_picks (h : catalog.Reorders catalog') (hs : catalog.SucceedAlike catalog' tie goal) :
    (∃ r, catalog.Picks tie goal r) → ∃ r', catalog'.Picks tie goal r' := by
  intro ⟨r, hr⟩
  obtain ⟨r', hp⟩ := h.exists_pairs hr.1.1
  exact ⟨r', h.picks hs hp hr⟩

/-- Where chains of needs end, the same rules succeed in both catalogs. -/
theorem succeedAlike (h : catalog.Reorders catalog') (hground : catalog.Grounded goal) :
    catalog.SucceedAlike catalog' tie goal := by
  induction hground with
  | intro goal hacc ih =>
    have hgoal : catalog.Grounded goal := ⟨goal, hacc⟩
    intro r r' hp
    constructor
    · exact h.succeeds hgoal (fun subgoal hn => h.exists_picks (ih subgoal hn)) hp
    · exact h.symm.succeeds (h.grounded hgoal)
        (fun subgoal hn => h.symm.exists_picks (ih subgoal (h.symm.needs hn)).symm) hp.symm

/-- The rules picked one after another ask for the same goals in both catalogs. -/
theorem taken (h : catalog.Reorders catalog') (hground : catalog.Grounded goal) {x : Term}
    (ht : Relation.ReflTransGen (catalog.Takes tie) goal x) :
    catalog.Grounded x ∧ Relation.ReflTransGen (catalog'.Takes tie) goal x := by
  induction ht with
  | refl => exact ⟨hground, .refl⟩
  | tail _ htake ih =>
    obtain ⟨r, hr, subst, hu, q, hq, ha⟩ := htake
    obtain ⟨r', hp⟩ := h.exists_pairs hr.1.1
    refine ⟨ih.1.needs ⟨r, hp.mem, subst, hu, q, hq, ha⟩, ih.2.tail ?_⟩
    exact ⟨r', h.picks (h.succeedAlike ih.1) hp hr, subst, hp.reorders.head ▸ hu, q,
      hp.reorders.body.mem_iff.mp hq, ha⟩

theorem chosen (h : catalog.Reorders catalog') (hground : catalog.Grounded goal) {x : Term}
    {name : String} (hx : Relation.ReflTransGen (catalog.Takes tie) goal x ∧
      ∃ r, catalog.Picks tie x r ∧ r.name = name) :
    Relation.ReflTransGen (catalog'.Takes tie) goal x ∧
      ∃ r', catalog'.Picks tie x r' ∧ r'.name = name := by
  obtain ⟨ht, r, hr, hname⟩ := hx
  obtain ⟨hgroundx, ht'⟩ := h.taken hground ht
  obtain ⟨r', hp⟩ := h.exists_pairs hr.1.1
  exact ⟨ht', r', h.picks (h.succeedAlike hgroundx) hp hr, hp.reorders.name.trans hname⟩

theorem mem_names (h : catalog.Reorders catalog') (hs : catalog.SucceedAlike catalog' tie goal)
    {rules rules' : List Rule} (hrules : ∀ r, r ∈ rules ↔ catalog.Succeeds tie goal r)
    (hrules' : ∀ r, r ∈ rules' ↔ catalog'.Succeeds tie goal r) {name : String}
    (hn : name ∈ rules.map Rule.name) : name ∈ rules'.map Rule.name := by
  obtain ⟨r, hr, hname⟩ := List.mem_map.mp hn
  have hsucceeds := (hrules r).mp hr
  obtain ⟨r', hp⟩ := h.exists_pairs hsucceeds.1
  exact List.mem_map.mpr
    ⟨r', (hrules' r').mpr ((hs r r' hp).mp hsucceeds), hp.reorders.name.trans hname⟩

/-- Lists of the rules that succeed have the same names. -/
theorem perm_names (h : catalog.Reorders catalog') (hs : catalog.SucceedAlike catalog' tie goal)
    {rules rules' : List Rule} (hsub : rules.Sublist catalog.rules)
    (hsub' : rules'.Sublist catalog'.rules)
    (hrules : ∀ r, r ∈ rules ↔ catalog.Succeeds tie goal r)
    (hrules' : ∀ r, r ∈ rules' ↔ catalog'.Succeeds tie goal r) :
    (rules.map Rule.name).Perm (rules'.map Rule.name) := by
  have hnodup : (rules.map Rule.name).Nodup := (hsub.map Rule.name).nodup h.distinct
  have hnodup' : (rules'.map Rule.name).Nodup := (hsub'.map Rule.name).nodup h.distinct'
  refine (List.perm_ext_iff_of_nodup hnodup hnodup').mpr fun name => ?_
  exact ⟨h.mem_names hs hrules hrules', h.symm.mem_names hs.symm hrules' hrules⟩

/-- Where the plain recursion fails over both catalogs, it does so in the same way, naming the same
rules. -/
theorem failures (h : catalog.Reorders catalog') (hs : catalog.SucceedAlike catalog' tie goal)
    {f f' : Failure} (hv : catalog.solved tie goal = some (.error f))
    (hv' : catalog'.solved tie goal = some (.error f')) :
    f.kind = f'.kind ∧ f.candidates.Perm f'.candidates := by
  obtain ⟨_, hfail⟩ := not_picks_of_solved h.indexed hv
  obtain ⟨_, hfail'⟩ := not_picks_of_solved h.indexed' hv'
  rcases hfail with ⟨⟨attempted, hf⟩, hnone⟩ | ⟨rules, hf, hsome, hsub, hrules⟩ <;>
    rcases hfail' with ⟨⟨attempted', hf'⟩, hnone'⟩ | ⟨rules', hf', hsome', hsub', hrules'⟩ <;>
    subst hf hf'
  · exact ⟨rfl, .refl []⟩
  · obtain ⟨r', hr'⟩ := List.exists_mem_of_ne_nil rules' hsome'
    have hsucceeds := (hrules' r').mp hr'
    obtain ⟨r, hp⟩ := h.exists_pairs' hsucceeds.1
    exact absurd ((hs r r' hp).mpr hsucceeds) (hnone r)
  · obtain ⟨r, hr⟩ := List.exists_mem_of_ne_nil rules hsome
    have hsucceeds := (hrules r).mp hr
    obtain ⟨r', hp⟩ := h.exists_pairs hsucceeds.1
    exact absurd ((hs r r' hp).mp hsucceeds) (hnone' r')
  · exact ⟨rfl, h.perm_names hs hsub hsub' hrules hrules'⟩

end Reorders

end Catalog

/-- Reordered clauses build catalogs of the same rules. -/
theorem Reordered.catalogs {clauses clauses' : List (String × Clause)} {catalog catalog' : Catalog}
    (h : Reordered clauses clauses') (hb : Catalog.build clauses = .ok catalog)
    (hb' : Catalog.build clauses' = .ok catalog') : catalog.Reorders catalog' := by
  have hr := registered_of_build hb
  have hr' := registered_of_build hb'
  obtain ⟨shuffled, hperm, hall⟩ := h
  refine ⟨Catalog.build_indexed hb, Catalog.build_indexed hb', ?_, ?_, ?_, ?_⟩
  · rw [hr.names]
    exact hr.wellFormed.distinct
  · rw [hr'.names]
    exact hr'.wellFormed.distinct
  · intro r hmem
    obtain ⟨id, e, he, hrule⟩ := hr.mem_rules.mp hmem
    obtain ⟨e', he', hprovider, hc⟩ :=
      exists_right_of_forall₂ hall (hperm.mem_iff.mp (List.mem_of_getElem? he))
    obtain ⟨id', hid'⟩ := List.mem_iff_getElem?.mp he'
    exact ⟨_, hr'.mem_rules.mpr ⟨id', e', hid', rfl⟩, hrule ▸ hc.toRule hprovider id id'⟩
  · intro r' hmem
    obtain ⟨id', e', he', hrule⟩ := hr'.mem_rules.mp hmem
    obtain ⟨e, he, hprovider, hc⟩ := exists_left_of_forall₂ hall (List.mem_of_getElem? he')
    obtain ⟨id, hid⟩ := List.mem_iff_getElem?.mp (hperm.mem_iff.mpr he)
    exact ⟨_, hr.mem_rules.mpr ⟨id, e, hid, rfl⟩, hrule ▸ hc.toRule hprovider id id'⟩

/-- A plan proves a goal, the one asked for or one further down, by the rule of the given name. -/
def Plan.Chooses (plan : Plan) (goal : Term) (name : String) : Prop :=
  ∃ p, Relation.ReflTransGen plan.table.Leads plan.proof p ∧ p.goal = goal ∧ p.name = name

/-- Two answers to the same goal take the same rule for it and for every goal of the proof, or fail
in the same way, naming the same rules. -/
inductive SameAnswer : Except Failure Plan → Except Failure Plan → Prop
  | ok {plan plan'} : plan.proof.name = plan'.proof.name →
      (∀ goal name, plan.Chooses goal name ↔ plan'.Chooses goal name) →
      (∀ goal name name', plan.Chooses goal name → plan'.Chooses goal name' → name = name') →
      SameAnswer (.ok plan) (.ok plan')
  | error {f f'} : f.kind = f'.kind → f.candidates.Perm f'.candidates →
      SameAnswer (.error f) (.error f')

section

variable {catalog catalog' : Catalog} {tie : TieBreak} {goal : Term}
  {answer answer' : Except Failure Plan}

theorem Plan.chooses_iff (hc : catalog.Indexed) {plan : Plan} {tree : ProofTree}
    (hu : Unfolds plan.table plan.proof tree) (hv : catalog.solved tie goal = some (.ok tree))
    {x : Term} {name : String} : plan.Chooses x name ↔
      Relation.ReflTransGen (catalog.Takes tie) goal x ∧ ∃ r, catalog.Picks tie x r ∧ r.name = name := by
  have hgoal : plan.proof.goal = goal := hu.goal.symm.trans (Catalog.goal_of_solved hc hv)
  have hplain : plan.proof.Plain catalog tie plan.table := ⟨tree, hu, hgoal ▸ hv⟩
  rw [← hgoal]
  exact hplain.reaches_iff hc

/-- Answers that agree with the plain recursion over catalogs of the same rules are the same. -/
theorem Catalog.Reorders.sameAnswer (h : catalog.Reorders catalog')
    (hground : catalog.Grounded goal) {v v' : Solution} (hv : catalog.solved tie goal = some v)
    (hv' : catalog'.solved tie goal = some v') (ha : Agrees answer v) (ha' : Agrees answer' v') :
    SameAnswer answer answer' := by
  have hs : catalog.SucceedAlike catalog' tie goal := h.succeedAlike hground
  cases ha with
  | @ok plan tree hu =>
    cases ha' with
    | @ok plan' tree' hu' =>
      have hchooses : ∀ x name, plan.Chooses x name ↔ plan'.Chooses x name := by
        intro x name
        rw [Plan.chooses_iff h.indexed hu hv, Plan.chooses_iff h.indexed' hu' hv']
        exact ⟨h.chosen hground, h.symm.chosen (h.grounded hground)⟩
      have hsame : ∀ x name name', plan.Chooses x name → plan'.Chooses x name' → name = name' := by
        intro x name name' hx hx'
        obtain ⟨_, r, hr, hname⟩ := (Plan.chooses_iff h.indexed hu hv).mp hx
        obtain ⟨_, r', hr', hname'⟩ :=
          (Plan.chooses_iff h.indexed hu hv).mp ((hchooses x name').mpr hx')
        rw [← hname, ← hname', hr.unique hr']
      have hgoals : plan'.proof.goal = plan.proof.goal := by
        rw [← hu'.goal, ← hu.goal, Catalog.goal_of_solved h.indexed' hv',
          Catalog.goal_of_solved h.indexed hv]
      exact .ok (hsame _ _ _ ⟨_, .refl, rfl, rfl⟩ ⟨_, .refl, hgoals, rfl⟩) hchooses hsame
    | @error f' =>
      obtain ⟨r', hr'⟩ := h.exists_picks hs ((Catalog.exists_picks_iff h.indexed hground).mpr ⟨_, hv⟩)
      exact absurd hr' ((Catalog.not_picks_of_solved h.indexed' hv').1 r')
  | @error f =>
    cases ha' with
    | @ok plan' tree' hu' =>
      obtain ⟨r, hr⟩ := h.symm.exists_picks hs.symm
        ((Catalog.exists_picks_iff h.indexed' (h.grounded hground)).mpr ⟨_, hv'⟩)
      exact absurd hr ((Catalog.not_picks_of_solved h.indexed hv).1 r)
    | @error f' =>
      obtain ⟨hkind, hnames⟩ := h.failures hs hv hv'
      rw [f.kind_unchained, f'.kind_unchained] at hkind
      rw [f.candidates_unchained, f'.candidates_unchained] at hnames
      exact .error hkind hnames

end

/-- The order in which rules are registered, and the order in which each lists its requirements, decide
nothing on a goal from which finitely many goals can be reached, none of them from itself. Without
a depth bound, calls over both catalogs end with the same answer, whatever was asked before. -/
theorem order_irrelevant {clauses clauses' : List (String × Clause)} {catalog catalog' : Catalog}
    {tie : TieBreak} {V V' : Type} {past past' : List Search} {s : Prover V} {s' : Prover V'}
    {goal : Term} (h : Reordered clauses clauses') (hb : Catalog.build clauses = .ok catalog)
    (hb' : Catalog.build clauses' = .ok catalog') (hs : Session catalog ⟨none, tie⟩ past s)
    (hs' : Session catalog' ⟨none, tie⟩ past' s') (hground : goal.isGround = true)
    (hfin : {x | Relation.ReflTransGen catalog.Needs goal x}.Finite)
    (hacyclic : ∀ x, Relation.ReflTransGen catalog.Needs goal x →
      ¬Relation.TransGen catalog.Needs x x) :
    ∃ n, ∀ budget budget', n ≤ budget → n ≤ budget' → ∃ answer answer' next next',
      s.compile budget goal = some (answer, next) ∧
        s'.compile budget' goal = some (answer', next') ∧ SameAnswer answer answer' := by
  have hr := h.catalogs hb hb'
  have hgrounded : catalog.Grounded goal := Catalog.grounded_of_finite hfin hacyclic
  have hgrounded' : catalog'.Grounded goal := hr.grounded hgrounded
  have hfin' : {x | Relation.ReflTransGen catalog'.Needs goal x}.Finite := by
    rw [hr.needs_eq]
    exact hfin
  obtain ⟨v, hv⟩ := hgrounded.exists_solved tie
  obtain ⟨v', hv'⟩ := hgrounded'.exists_solved tie
  obtain ⟨n, hn⟩ := hs.compile_plain hr.indexed rfl hground hfin hgrounded hv
  obtain ⟨n', hn'⟩ := hs'.compile_plain hr.indexed' rfl hground hfin' hgrounded' hv'
  refine ⟨max n n', fun budget budget' hle hle' => ?_⟩
  obtain ⟨answer, next, hcompile, ha⟩ := hn budget (by omega)
  obtain ⟨answer', next', hcompile', ha'⟩ := hn' budget' (by omega)
  exact ⟨answer, answer', next, next', hcompile, hcompile', hr.sameAnswer hgrounded hv hv' ha ha'⟩

/-- A tree needs a bag of leaves and a leaf. Two rules give the bag, one of them from a leaf. -/
def orchard : List (String × Clause) :=
  [("p", ⟨"leaf", .const "Leaf", []⟩),
    ("p", ⟨"bag", .app "Bag" [.var ⟨1, "a"⟩], [⟨.var ⟨1, "a"⟩, false⟩]⟩),
    ("q", ⟨"leaves", .app "Bag" [.const "Leaf"], []⟩),
    ("p", ⟨"tree", .const "Tree", [⟨.app "Bag" [.const "Leaf"], false⟩, ⟨.const "Leaf", true⟩]⟩)]

/-- The same rules, all of them in another order, and with the leaf of the tree first. -/
def orchardTurned : List (String × Clause) :=
  [("p", ⟨"tree", .const "Tree", [⟨.const "Leaf", true⟩, ⟨.app "Bag" [.const "Leaf"], false⟩]⟩),
    ("q", ⟨"leaves", .app "Bag" [.const "Leaf"], []⟩),
    ("p", ⟨"bag", .app "Bag" [.var ⟨1, "a"⟩], [⟨.var ⟨1, "a"⟩, false⟩]⟩),
    ("p", ⟨"leaf", .const "Leaf", []⟩)]

def orchardCatalog : Catalog where
  rules := [⟨0, "p::leaf", .const "Leaf", []⟩,
    ⟨1, "p::bag", .app "Bag" [.var ⟨1, "a"⟩], [⟨.var ⟨1, "a"⟩, false⟩]⟩,
    ⟨2, "q::leaves", .app "Bag" [.const "Leaf"], []⟩,
    ⟨3, "p::tree", .const "Tree", [⟨.app "Bag" [.const "Leaf"], false⟩, ⟨.const "Leaf", true⟩]⟩]
  index := [("Leaf", [0]), ("Bag", [1, 2]), ("Tree", [3])]
  arities := [("Leaf", 0), ("Bag", 1), ("Tree", 0)]

def orchardTurnedCatalog : Catalog where
  rules := [
    ⟨0, "p::tree", .const "Tree", [⟨.const "Leaf", true⟩, ⟨.app "Bag" [.const "Leaf"], false⟩]⟩,
    ⟨1, "q::leaves", .app "Bag" [.const "Leaf"], []⟩,
    ⟨2, "p::bag", .app "Bag" [.var ⟨1, "a"⟩], [⟨.var ⟨1, "a"⟩, false⟩]⟩,
    ⟨3, "p::leaf", .const "Leaf", []⟩]
  index := [("Tree", [0]), ("Bag", [1, 2]), ("Leaf", [3])]
  arities := [("Tree", 0), ("Leaf", 0), ("Bag", 1)]

theorem orchard_reordered : Reordered orchard orchardTurned := by
  refine ⟨orchard.reverse, (List.reverse_perm orchard).symm, ?_⟩
  exact .cons ⟨rfl, rfl, rfl, .swap _ _ []⟩ (.cons ⟨rfl, rfl, rfl, .refl _⟩
    (.cons ⟨rfl, rfl, rfl, .refl _⟩ (.cons ⟨rfl, rfl, rfl, .refl _⟩ .nil)))

/-- The goals that a tree needs in the end, ranked by what they need. -/
def orchardRank : List (Term × Nat) :=
  [(.const "Tree", 2), (.app "Bag" [.const "Leaf"], 1), (.const "Leaf", 0)]

theorem orchard_needs {goal subgoal : Term} {n : Nat} (hg : (goal, n) ∈ orchardRank)
    (h : orchardCatalog.Needs goal subgoal) : ∃ m, (subgoal, m) ∈ orchardRank ∧ m < n := by
  obtain ⟨r, hr, subst, hu, q, hq, ha⟩ := h
  simp only [orchardRank, List.mem_cons, Prod.mk.injEq, List.not_mem_nil, or_false] at hg ⊢
  simp only [orchardCatalog, List.mem_cons, List.not_mem_nil, or_false] at hr
  obtain ⟨hgoal, hn⟩ | ⟨hgoal, hn⟩ | ⟨hgoal, hn⟩ := hg <;> subst hgoal hn <;>
    obtain hrule | hrule | hrule | hrule := hr <;> subst hrule <;>
      simp [unify, Term.const, Term.isGround, Term.allGround, Substitution.extend] at hu hq
  · obtain hq | hq := hq <;> subst hq <;> cases ha
    · exact ⟨1, by simp [Term.const]⟩
    · exact ⟨0, by simp [Term.const]⟩
  · subst hq
    cases hu
    cases ha
    exact ⟨0, by simp [Term.const]⟩

theorem orchard_reaches {goal subgoal : Term} {n : Nat} (hg : (goal, n) ∈ orchardRank)
    (h : Relation.ReflTransGen orchardCatalog.Needs goal subgoal) :
    ∃ m, (subgoal, m) ∈ orchardRank ∧ m ≤ n := by
  induction h with
  | refl => exact ⟨n, hg, le_refl n⟩
  | tail _ hn ih =>
    obtain ⟨m, hm, hle⟩ := ih
    obtain ⟨k, hk, hlt⟩ := orchard_needs hm hn
    exact ⟨k, hk, by omega⟩

/-- Where two rules give a bag of leaves, the more specific one is taken from either catalog. -/
theorem orchard_turned : ∃ n, ∀ budget budget', n ≤ budget → n ≤ budget' →
    ∃ answer answer' next next',
      (Prover.start orchardCatalog ⟨none, .mostSpecific⟩ : Prover Unit).compile budget
          (.const "Tree") = some (answer, next) ∧
        (Prover.start orchardTurnedCatalog ⟨none, .mostSpecific⟩ : Prover Unit).compile budget'
            (.const "Tree") = some (answer', next') ∧
          SameAnswer answer answer' := by
  have hroot : (Term.const "Tree", 2) ∈ orchardRank := List.mem_cons_self
  refine order_irrelevant orchard_reordered (by decide) (by decide) .start .start (by decide) ?_ ?_
  · refine Set.Finite.subset (orchardRank.map Prod.fst).finite_toSet fun x hx => ?_
    obtain ⟨m, hm, _⟩ := orchard_reaches hroot hx
    exact List.mem_map.mpr ⟨(x, m), hm, rfl⟩
  · intro x hx hc
    obtain ⟨m, hm, _⟩ := orchard_reaches hroot hx
    obtain ⟨y, hn, hr⟩ := Relation.TransGen.head'_iff.mp hc
    obtain ⟨k, hk, hlt⟩ := orchard_needs hm hn
    obtain ⟨m', hm', hle⟩ := orchard_reaches hk hr
    have hdistinct : (orchardRank.map Prod.fst).Nodup := by decide
    cases List.inj_on_of_nodup_map hdistinct hm' hm rfl
    omega

end Clausal
