import Clausal.Proofs.Refinement

namespace Clausal

section

variable {α β : Type} {R : α → β → Prop} {l : List α} {l' : List β}

theorem exists_right_of_forall₂ (h : List.Forall₂ R l l') {a : α} (ha : a ∈ l) :
    ∃ b ∈ l', R a b := by
  induction h with
  | nil => cases ha
  | @cons a' b _ l' hab _ ih =>
    rcases List.mem_cons.mp ha with he | ha
    · exact ⟨b, List.mem_cons_self, he ▸ hab⟩
    · obtain ⟨b', hb', hr⟩ := ih ha
      exact ⟨b', List.mem_cons_of_mem b hb', hr⟩

theorem exists_left_of_forall₂ (h : List.Forall₂ R l l') {b : β} (hb : b ∈ l') :
    ∃ a ∈ l, R a b :=
  exists_right_of_forall₂ (R := flip R) (List.Forall₂.flip h) hb

theorem exists_forall₂_iff : (∃ l', List.Forall₂ R l l') ↔ ∀ a ∈ l, ∃ b, R a b := by
  constructor
  · intro ⟨l', h⟩ a ha
    obtain ⟨b, _, hr⟩ := exists_right_of_forall₂ h ha
    exact ⟨b, hr⟩
  · intro h
    induction l with
    | nil => exact ⟨[], .nil⟩
    | cons a l ih =>
      obtain ⟨b, hb⟩ := h a List.mem_cons_self
      obtain ⟨l', hl'⟩ := ih fun a' ha' => h a' (List.mem_cons_of_mem a ha')
      exact ⟨b :: l', .cons hb hl'⟩

end

namespace Rule

variable {ask : Term → Option Solution} {r : Rule} {subst : Substitution} {goal : Term}

/-- A requirement is solved by a proof of the goal that it becomes. -/
def Solves (ask : Term → Option Solution) (subst : Substitution) (q : Requirement)
    (tree : ProofTree) : Prop :=
  ∃ subgoal, subst.apply q.pattern = .ok subgoal ∧ ask subgoal = some (.ok tree)

theorem meet_eq_ok_iff {body : List Requirement} {i : Nat} {trees : List ProofTree} :
    r.meet ask subst i body = some (.ok trees) ↔ List.Forall₂ (Solves ask subst) body trees := by
  induction body generalizing i trees with
  | nil => cases trees <;> simp [meet]
  | cons q rest ih =>
    rw [meet, List.forall₂_cons_left_iff]
    constructor
    · intro h
      cases ha : subst.apply q.pattern with
      | error v => simp [ha] at h
      | ok subgoal =>
        rw [ha] at h
        obtain ⟨v, hv, h⟩ := Option.bind_eq_some_iff.mp h
        cases v with
        | error cause => cases h
        | ok tree =>
          obtain ⟨met, hmet, h⟩ := Option.bind_eq_some_iff.mp h
          cases met with
          | error a => cases h
          | ok subtrees =>
            cases h
            exact ⟨tree, subtrees, ⟨subgoal, ha, hv⟩, ih.mp hmet, rfl⟩
    · rintro ⟨tree, subtrees, ⟨subgoal, ha, hv⟩, hrest, he⟩
      rw [he]
      simp only [ha, hv, ih.mpr hrest, Option.bind_eq_bind, Option.bind_some]
      rfl

theorem solve_eq_ok_iff {tree : ProofTree} : r.solve ask goal = some (.ok tree) ↔
    ∃ subst trees, unify goal r.head = .ok subst ∧
      List.Forall₂ (Solves ask subst) r.body trees ∧ tree = .node goal r.id r.name trees := by
  rw [solve]
  constructor
  · intro h
    cases hu : unify goal r.head with
    | error reason => simp [hu] at h
    | ok subst =>
      rw [hu] at h
      obtain ⟨met, hmet, h⟩ := Option.bind_eq_some_iff.mp h
      cases met with
      | error a => cases h
      | ok trees =>
        cases h
        exact ⟨subst, trees, rfl, meet_eq_ok_iff.mp hmet, rfl⟩
  · rintro ⟨subst, trees, hu, hall, he⟩
    simp only [hu, meet_eq_ok_iff.mpr hall, he]
    rfl

end Rule

theorem TieBreak.winner?_eq_some {tie : TieBreak} {proofs : List (Rule × ProofTree)}
    {tree : ProofTree} (h : tie.winner? proofs = some tree) : tie = .mostSpecific ∧
      ∃ r, (r, tree) ∈ proofs ∧ ∀ q ∈ proofs, q.1.id = r.id ∨ r.head.dominates q.1.head = true := by
  cases tie with
  | strict => cases h
  | mostSpecific =>
    obtain ⟨⟨r, tree'⟩, hfind, he⟩ := Option.map_eq_some_iff.mp h
    dsimp only at he
    subst he
    have hbeats := List.find?_some hfind
    simp only [List.all_eq_true, Bool.or_eq_true, beq_iff_eq] at hbeats
    exact ⟨rfl, r, List.mem_of_find?_eq_some hfind, hbeats⟩

theorem TieBreak.winner?_eq_none_of_mostSpecific {proofs : List (Rule × ProofTree)}
    (h : TieBreak.winner? .mostSpecific proofs = none) {p : Rule × ProofTree} (hp : p ∈ proofs) :
    ∃ q ∈ proofs, q.1.id ≠ p.1.id ∧ p.1.head.dominates q.1.head = false := by
  have hnot := List.find?_eq_none.mp (Option.map_eq_none_iff.mp h) p hp
  by_contra hall
  push Not at hall
  refine hnot ?_
  simp only [List.all_eq_true, Bool.or_eq_true, beq_iff_eq]
  intro q hq
  by_cases hid : q.1.id = p.1.id
  · exact .inl hid
  · exact .inr (Bool.eq_true_of_not_eq_false (hall q hq hid))

namespace Catalog

variable {catalog : Catalog} {tie : TieBreak} {goal : Term} {r other : Rule}

theorem Indexed.rules_nodup (h : catalog.Indexed) : catalog.rules.Nodup :=
  .of_map Rule.id h.ids_nodup

theorem Indexed.eq_of_id (h : catalog.Indexed) (hr : r ∈ catalog.rules)
    (hother : other ∈ catalog.rules) (hid : other.id = r.id) : other = r := by
  have hfound := h.rule?_id hother
  rw [hid, h.rule?_id hr] at hfound
  exact (Option.some.inj hfound).symm

/-- A rule of the catalog proves a goal by the plain recursion. -/
def Succeeds (catalog : Catalog) (tie : TieBreak) (goal : Term) (r : Rule) : Prop :=
  r ∈ catalog.rules ∧ ∃ tree, r.solve (catalog.solved tie) goal = some (.ok tree)

/-- A rule proves a goal, and no other rule does unless the policy prefers this one to it. -/
def Picks (catalog : Catalog) (tie : TieBreak) (goal : Term) (r : Rule) : Prop :=
  catalog.Succeeds tie goal r ∧ ∀ other, catalog.Succeeds tie goal other → other ≠ r →
    tie = .mostSpecific ∧ r.head.dominates other.head = true

theorem Picks.unique (h : catalog.Picks tie goal r) (h' : catalog.Picks tie goal other) :
    r = other := by
  by_contra hne
  have hr := (h.2 other h'.1 (Ne.symm hne)).2
  have hother := (h'.2 r h.1 hne).2
  rw [Term.dominates_asymm hr] at hother
  cases hother

/-- The plain recursion tries each rule with the goal's constructor at the head, and goes by what
comes of them. -/
theorem exists_tried_of_solved {v : Solution} (h : catalog.solved tie goal = some v) :
    ∃ tried : Tried,
      tried.map Prod.fst = (catalog.rules.filter fun r => r.head.ctor? = goal.ctor?) ∧
        (∀ t ∈ tried, t.1.solve (catalog.solved tie) goal = some t.2) ∧
          tried.solution tie goal = v := by
  obtain ⟨depth, hdepth⟩ := solved_eq_some_iff.mp h
  cases depth with
  | zero => cases hdepth
  | succ depth =>
    obtain ⟨tried, hmap, hall, hv⟩ := solve_succ.mp hdepth
    refine ⟨tried, hmap, fun t ht => rule_solve_mono (fun g v hg => ?_) (hall t ht), hv⟩
    exact solved_eq_some_iff.mpr ⟨depth, hg⟩

section

variable {tried : Tried} (hc : catalog.Indexed)
  (hmap : tried.map Prod.fst = catalog.rules.filter fun r => r.head.ctor? = goal.ctor?)
  (hall : ∀ t ∈ tried, t.1.solve (catalog.solved tie) goal = some t.2)

include hmap in
/-- The rules that gave proofs come in the order of the catalog. -/
theorem proofs_rules_sublist : (tried.proofs.map Prod.fst).Sublist catalog.rules := by
  have hsub : (tried.proofs.map Prod.fst).Sublist (tried.map Prod.fst) := by
    clear hmap
    induction tried with
    | nil => exact .slnil
    | cons t tried ih =>
      obtain ⟨r, result⟩ := t
      cases result with
      | ok p => exact ih.cons_cons _
      | error a => exact ih.cons _
  rw [hmap] at hsub
  exact hsub.trans List.filter_sublist

include hc hmap hall in
/-- The rules that gave proofs are those that succeed. -/
theorem mem_proofs_iff {tree : ProofTree} : (r, tree) ∈ tried.proofs ↔
    r ∈ catalog.rules ∧ r.solve (catalog.solved tie) goal = some (.ok tree) := by
  have hmem : (r, tree) ∈ tried.proofs ↔ (r, Except.ok tree) ∈ tried := by
    rw [Tried.proofs, List.mem_filterMap]
    constructor
    · rintro ⟨⟨r', result⟩, ht, he⟩
      cases result with
      | error a => cases he
      | ok p =>
        cases he
        exact ht
    · intro ht
      exact ⟨_, ht, rfl⟩
  rw [hmem]
  constructor
  · intro ht
    have hr : r ∈ tried.map Prod.fst := List.mem_map_of_mem ht
    rw [hmap] at hr
    exact ⟨(List.mem_filter.mp hr).1, hall _ ht⟩
  · rintro ⟨hr, hsolve⟩
    obtain ⟨subst, _, hu, _⟩ := Rule.solve_eq_ok_iff.mp hsolve
    have hcandidate := hc.mem_candidates hr hu
    rw [hc.candidates_eq_filter, ← hmap] at hcandidate
    obtain ⟨⟨r', result⟩, ht, he⟩ := List.mem_map.mp hcandidate
    dsimp only at he
    subst he
    cases (hall _ ht).symm.trans hsolve
    exact ht

include hc hmap hall in
theorem mem_proofs_rules_iff : r ∈ tried.proofs.map Prod.fst ↔ catalog.Succeeds tie goal r := by
  constructor
  · intro h
    obtain ⟨⟨r', tree⟩, hmem, he⟩ := List.mem_map.mp h
    dsimp only at he
    subst he
    obtain ⟨hr, hsolve⟩ := (mem_proofs_iff hc hmap hall).mp hmem
    exact ⟨hr, tree, hsolve⟩
  · intro ⟨hr, tree, hsolve⟩
    exact List.mem_map.mpr ⟨(r, tree), (mem_proofs_iff hc hmap hall).mpr ⟨hr, hsolve⟩, rfl⟩

end

/-- A proof that the plain recursion finds is the one by the rule that it picks. -/
theorem exists_picks_of_solved (hc : catalog.Indexed) {tree : ProofTree}
    (h : catalog.solved tie goal = some (.ok tree)) :
    ∃ r, catalog.Picks tie goal r ∧ r.solve (catalog.solved tie) goal = some (.ok tree) := by
  obtain ⟨tried, hmap, hall, hv⟩ := exists_tried_of_solved h
  have hproofs : ∀ {r tree}, (r, tree) ∈ tried.proofs → r ∈ catalog.rules ∧
      r.solve (catalog.solved tie) goal = some (.ok tree) := (mem_proofs_iff hc hmap hall).mp
  have hsucceeds : ∀ {r}, catalog.Succeeds tie goal r → r ∈ tried.proofs.map Prod.fst :=
    (mem_proofs_rules_iff hc hmap hall).mpr
  unfold Tried.solution at hv
  split at hv
  · cases hv
  next p hone =>
    cases hv
    have hmem : (p.1, p.2) ∈ tried.proofs := hone ▸ List.mem_singleton_self p
    obtain ⟨hr, hsolve⟩ := hproofs hmem
    refine ⟨p.1, ⟨⟨hr, p.2, hsolve⟩, fun other hother hne => absurd ?_ hne⟩, hsolve⟩
    have hlisted := hsucceeds hother
    rw [hone] at hlisted
    exact List.mem_singleton.mp hlisted
  · split at hv
    next tree' hwinner =>
      cases hv
      obtain ⟨htie, r, hmem, hbeats⟩ := TieBreak.winner?_eq_some hwinner
      obtain ⟨hr, hsolve⟩ := hproofs hmem
      refine ⟨r, ⟨⟨hr, tree, hsolve⟩, fun other hother hne => ⟨htie, ?_⟩⟩, hsolve⟩
      obtain ⟨q, hq, he⟩ := List.mem_map.mp (hsucceeds hother)
      rw [← he] at hne hother ⊢
      exact (hbeats q hq).resolve_left fun hid => hne (hc.eq_of_id hr hother.1 hid)
    · cases hv

/-- Where the plain recursion fails, either no rule proves the goal, or several rules do and are
listed in their order, none of which is picked. -/
theorem not_picks_of_solved (hc : catalog.Indexed) {f : Failure}
    (h : catalog.solved tie goal = some (.error f)) : (∀ r, ¬catalog.Picks tie goal r) ∧
      ((∃ attempted, f = .noRule goal [] attempted) ∧ (∀ r, ¬catalog.Succeeds tie goal r) ∨
        ∃ rules : List Rule, f = .ambiguous goal [] (rules.map Rule.name) ∧ rules ≠ [] ∧
          rules.Sublist catalog.rules ∧ ∀ r, r ∈ rules ↔ catalog.Succeeds tie goal r) := by
  obtain ⟨tried, hmap, hall, hv⟩ := exists_tried_of_solved h
  have hsucceeds : ∀ {r}, r ∈ tried.proofs.map Prod.fst ↔ catalog.Succeeds tie goal r :=
    mem_proofs_rules_iff hc hmap hall
  have hsub := proofs_rules_sublist hmap
  unfold Tried.solution at hv
  split at hv
  next hnone =>
    cases hv
    have hnot : ∀ r, ¬catalog.Succeeds tie goal r := by
      intro r hr
      have hmem := hsucceeds.mpr hr
      rw [hnone] at hmem
      cases hmem
    exact ⟨fun r hr => hnot r hr.1, .inl ⟨⟨_, rfl⟩, hnot⟩⟩
  · cases hv
  next hempty hsingle =>
    split at hv
    · cases hv
    next hwinner =>
      cases hv
      refine ⟨fun r hr => ?_, .inr ⟨tried.proofs.map Prod.fst, by rw [List.map_map]; rfl,
        by simpa using hempty, hsub, fun r => hsucceeds⟩⟩
      -- Some other rule succeeds as well, so that only a preference could decide.
      obtain ⟨other, hother, hne⟩ : ∃ other ∈ tried.proofs.map Prod.fst, other ≠ r := by
        have hnodup : (tried.proofs.map Prod.fst).Nodup := hsub.nodup hc.rules_nodup
        match hproofs : tried.proofs with
        | [] => exact absurd hproofs hempty
        | [p] => exact absurd hproofs (hsingle p)
        | p :: q :: rest =>
          rw [hproofs] at hnodup
          by_cases hp : p.1 = r
          · have hpq : q.1 ≠ p.1 := by
              intro he
              simp [he] at hnodup
            exact ⟨q.1, by simp, hp ▸ hpq⟩
          · exact ⟨p.1, by simp, hp⟩
      have htie := (hr.2 other (hsucceeds.mp hother) hne).1
      subst htie
      obtain ⟨p, hp, he⟩ := List.mem_map.mp (hsucceeds.mpr hr.1)
      obtain ⟨q, hq, hid, hnot⟩ := TieBreak.winner?_eq_none_of_mostSpecific hwinner hp
      rw [he] at hid hnot
      have hdominates := (hr.2 q.1 (hsucceeds.mp (List.mem_map_of_mem hq))
        fun hsame => hid (by rw [hsame])).2
      rw [hnot] at hdominates
      cases hdominates

/-- A goal from which chains of needs end has a proof exactly when some rule is picked for it. -/
theorem exists_picks_iff (hc : catalog.Indexed) (hground : catalog.Grounded goal) :
    (∃ r, catalog.Picks tie goal r) ↔ ∃ tree, catalog.solved tie goal = some (.ok tree) := by
  constructor
  · intro ⟨r, hr⟩
    obtain ⟨v, hv⟩ := hground.exists_solved tie
    cases v with
    | ok tree => exact ⟨tree, hv⟩
    | error f => exact absurd hr ((not_picks_of_solved hc hv).1 r)
  · intro ⟨tree, h⟩
    obtain ⟨r, hr, _⟩ := exists_picks_of_solved hc h
    exact ⟨r, hr⟩

/-- A rule succeeds when its head matches and for each goal that it asks for some rule is picked. -/
theorem succeeds_iff (hc : catalog.Indexed) (hground : catalog.Grounded goal)
    (hr : r ∈ catalog.rules) : catalog.Succeeds tie goal r ↔
      ∃ subst, unify goal r.head = .ok subst ∧ ∀ q ∈ r.body,
        ∃ subgoal, subst.apply q.pattern = .ok subgoal ∧ ∃ other, catalog.Picks tie subgoal other := by
  have solves : ∀ {subst}, unify goal r.head = .ok subst → ∀ q ∈ r.body,
      ((∃ tree, Rule.Solves (catalog.solved tie) subst q tree) ↔
        ∃ subgoal, subst.apply q.pattern = .ok subgoal ∧ ∃ other, catalog.Picks tie subgoal other) := by
    intro subst hu q hq
    have hpicks : ∀ subgoal, subst.apply q.pattern = .ok subgoal →
        ((∃ other, catalog.Picks tie subgoal other) ↔
          ∃ tree, catalog.solved tie subgoal = some (.ok tree)) := fun subgoal ha =>
      exists_picks_iff hc (hground.needs ⟨r, hr, subst, hu, q, hq, ha⟩)
    constructor
    · intro ⟨tree, subgoal, ha, hv⟩
      exact ⟨subgoal, ha, (hpicks subgoal ha).mpr ⟨tree, hv⟩⟩
    · intro ⟨subgoal, ha, hother⟩
      obtain ⟨tree, hv⟩ := (hpicks subgoal ha).mp hother
      exact ⟨tree, subgoal, ha, hv⟩
  constructor
  · intro ⟨_, tree, hsolve⟩
    obtain ⟨subst, trees, hu, hall, _⟩ := Rule.solve_eq_ok_iff.mp hsolve
    exact ⟨subst, hu, fun q hq => (solves hu q hq).mp (exists_forall₂_iff.mp ⟨trees, hall⟩ q hq)⟩
  · intro ⟨subst, hu, hbody⟩
    obtain ⟨trees, hall⟩ := exists_forall₂_iff.mpr fun q hq => (solves hu q hq).mpr (hbody q hq)
    exact ⟨hr, _, Rule.solve_eq_ok_iff.mpr ⟨subst, trees, hu, hall, rfl⟩⟩

/-- The rule picked for a goal asks for another one. -/
def Takes (catalog : Catalog) (tie : TieBreak) (goal subgoal : Term) : Prop :=
  ∃ r, catalog.Picks tie goal r ∧ ∃ subst, unify goal r.head = .ok subst ∧
    ∃ q ∈ r.body, subst.apply q.pattern = .ok subgoal

end Catalog

section

variable {table : ProofTable} {p q : Proof} {es : List Edge} {trees : List ProofTree}
  {tree : ProofTree}

theorem UnfoldsAll.exists_tree (h : UnfoldsAll table es trees) {e : Edge} (he : e ∈ es)
    (hq : table.get? e.link.target = some q) : ∃ tree ∈ trees, Unfolds table q tree := by
  induction es generalizing trees with
  | nil => cases he
  | cons e' es ih =>
    cases h with
    | @cons _ _ id q' tree trees hlink hget ht hs =>
      rcases List.mem_cons.mp he with heq | he
      · rw [heq, hlink] at hq
        cases hget.symm.trans hq
        exact ⟨tree, List.mem_cons_self, ht⟩
      · obtain ⟨tree', hmem, hu⟩ := ih hs he
        exact ⟨tree', List.mem_cons_of_mem tree hmem, hu⟩

theorem UnfoldsAll.exists_edge (h : UnfoldsAll table es trees) (ht : tree ∈ trees) :
    ∃ e ∈ es, ∃ q, table.get? e.link.target = some q ∧ Unfolds table q tree := by
  induction es generalizing trees with
  | nil =>
    cases h
    cases ht
  | cons e es ih =>
    cases h with
    | @cons _ _ id q tree' trees hlink hget hu hs =>
      rcases List.mem_cons.mp ht with heq | ht
      · exact ⟨e, List.mem_cons_self, q, by rw [hlink]; exact hget, heq ▸ hu⟩
      · obtain ⟨e', he', hq⟩ := ih hs ht
        exact ⟨e', List.mem_cons_of_mem e he', hq⟩

def ProofTree.goal : ProofTree → Term
  | .node goal _ _ _ => goal

theorem Unfolds.goal (h : Unfolds table p tree) : tree.goal = p.goal := by
  cases h with
  | node _ => rfl

variable {catalog : Catalog} {tie : TieBreak} {goal : Term}

theorem Catalog.goal_of_solved (hc : catalog.Indexed)
    (h : catalog.solved tie goal = some (.ok tree)) : tree.goal = goal := by
  obtain ⟨r, _, hsolve⟩ := exists_picks_of_solved hc h
  obtain ⟨_, _, _, _, he⟩ := Rule.solve_eq_ok_iff.mp hsolve
  rw [he]
  rfl

/-- A proof is what the plain recursion finds for its goal. -/
def Proof.Plain (catalog : Catalog) (tie : TieBreak) (table : ProofTable) (p : Proof) : Prop :=
  ∃ tree, Unfolds table p tree ∧ catalog.solved tie p.goal = some (.ok tree)

namespace Proof.Plain

variable (hc : catalog.Indexed) (h : p.Plain catalog tie table)

include hc h

/-- The rule of a proof is the one picked for its goal, and each of its edges leads to a proof that
solves a requirement of that rule. -/
theorem picks : ∃ r, catalog.Picks tie p.goal r ∧ p.name = r.name ∧ ∃ subst trees,
    unify p.goal r.head = .ok subst ∧
      List.Forall₂ (Rule.Solves (catalog.solved tie) subst) r.body trees ∧
        UnfoldsAll table p.edges trees := by
  obtain ⟨tree, hu, hv⟩ := h
  obtain ⟨r, hpicks, hsolve⟩ := Catalog.exists_picks_of_solved hc hv
  obtain ⟨subst, trees, hunify, hall, he⟩ := Rule.solve_eq_ok_iff.mp hsolve
  subst he
  generalize hname : r.name = name at hu
  generalize r.id = id at hu
  cases hu with
  | node hedges => exact ⟨r, hpicks, hname.symm, subst, trees, hunify, hall, hedges⟩

theorem leads (hq : table.Leads p q) : q.Plain catalog tie table ∧ catalog.Takes tie p.goal q.goal := by
  obtain ⟨r, hpicks, _, subst, trees, hu, hall, hedges⟩ := h.picks hc
  obtain ⟨e, he, hget⟩ := hq
  obtain ⟨tree, ht, hunfolds⟩ := hedges.exists_tree he hget
  obtain ⟨requirement, hmem, subgoal, ha, hv⟩ := exists_left_of_forall₂ hall ht
  have hgoal : q.goal = subgoal := hunfolds.goal.symm.trans (Catalog.goal_of_solved hc hv)
  subst hgoal
  exact ⟨⟨tree, hunfolds, hv⟩, r, hpicks, subst, hu, requirement, hmem, ha⟩

theorem exists_leads {subgoal : Term} (ht : catalog.Takes tie p.goal subgoal) :
    ∃ q, table.Leads p q ∧ q.goal = subgoal := by
  obtain ⟨r, hpicks, _, subst, trees, hu, hall, hedges⟩ := h.picks hc
  obtain ⟨r', hpicks', subst', hu', requirement, hmem, ha⟩ := ht
  cases hpicks.unique hpicks'
  cases hu.symm.trans hu'
  obtain ⟨tree, htree, subgoal', ha', hv⟩ := exists_right_of_forall₂ hall hmem
  cases ha.symm.trans ha'
  obtain ⟨e, he, q, hget, hunfolds⟩ := hedges.exists_edge htree
  exact ⟨q, ⟨e, he, hget⟩, hunfolds.goal.symm.trans (Catalog.goal_of_solved hc hv)⟩

/-- The proofs that a plain proof leads to are for the goals taken from its own on, each by the rule
picked for its goal. -/
theorem reaches_iff {x : Term} {name : String} :
    (∃ q, Relation.ReflTransGen table.Leads p q ∧ q.goal = x ∧ q.name = name) ↔
      Relation.ReflTransGen (catalog.Takes tie) p.goal x ∧
        ∃ r, catalog.Picks tie x r ∧ r.name = name := by
  have step : ∀ {q}, Relation.ReflTransGen table.Leads p q →
      q.Plain catalog tie table ∧ Relation.ReflTransGen (catalog.Takes tie) p.goal q.goal := by
    intro q hr
    induction hr with
    | refl => exact ⟨h, .refl⟩
    | tail _ hlead ih =>
      obtain ⟨hplain, htakes⟩ := ih.1.leads hc hlead
      exact ⟨hplain, ih.2.tail htakes⟩
  constructor
  · intro ⟨q, hr, hgoal, hname⟩
    obtain ⟨hplain, htaken⟩ := step hr
    obtain ⟨r, hpicks, hrule, _⟩ := hplain.picks hc
    subst hgoal
    exact ⟨htaken, r, hpicks, hrule.symm.trans hname⟩
  · intro ⟨htaken, r, hpicks, hname⟩
    obtain ⟨q, hr, hgoal⟩ : ∃ q, Relation.ReflTransGen table.Leads p q ∧ q.goal = x := by
      clear hpicks
      induction htaken with
      | refl => exact ⟨p, .refl, rfl⟩
      | tail _ htake ih =>
        obtain ⟨q, hr, hgoal⟩ := ih
        subst hgoal
        obtain ⟨q', hlead, hgoal'⟩ := (step hr).1.exists_leads hc htake
        exact ⟨q', hr.tail hlead, hgoal'⟩
    subst hgoal
    obtain ⟨r', hpicks', hrule, _⟩ := (step hr).1.picks hc
    cases hpicks.unique hpicks'
    exact ⟨q, hr, rfl, hrule.trans hname⟩

end Proof.Plain

end

end Clausal
