import Clausal.Proofs.Height
import Clausal.Proofs.Soundness
import Mathlib.Data.Set.Finite.Lattice

namespace Clausal

/-- Among the rules chosen for goals, the one for the first goal needs the second at once. -/
def NeedsNow (rule : Term → Rule) (a b : Term) : Prop :=
  ∃ subst, unify a (rule a).head = .ok subst ∧
    ∃ q ∈ (rule a).body, q.deferrable = false ∧ subst.apply q.pattern = .ok b

/-- A proof as a choice of one rule for each of finitely many goals. The rules match, need no other
goals, and what they need at once is never circular. -/
structure RuleChoice (catalog : Catalog) (goals : Set Term) (rule : Term → Rule) : Prop where
  finite : goals.Finite
  mem : ∀ g ∈ goals, rule g ∈ catalog.rules
  met : ∀ g ∈ goals, ∃ subst, unify g (rule g).head = .ok subst ∧
    ∀ q ∈ (rule g).body, ∃ x ∈ goals, subst.apply q.pattern = .ok x
  acyclic : ∀ g ∈ goals, ¬Relation.TransGen (NeedsNow rule) g g

/-- There is a proof of the goal that starts with the rule. -/
def Rule.Proves (catalog : Catalog) (r : Rule) (goal : Term) : Prop :=
  ∃ goals rule, RuleChoice catalog goals rule ∧ goal ∈ goals ∧ rule goal = r

variable {catalog : Catalog} {table : ProofTable} {goal : Term} {r : Rule} {subst : Substitution}
  {edges : List Edge}

namespace RuleChoice

variable {goals : Set Term} {rule : Term → Rule} {g x : Term}

theorem fits (h : RuleChoice catalog goals rule) (hg : g ∈ goals) : g.fits (rule g).head = true := by
  obtain ⟨_, hunify, _⟩ := h.met g hg
  simp [Term.fits, hunify]

theorem mem_of_requirement (h : RuleChoice catalog goals rule) (hg : g ∈ goals)
    (hr : rule g = r) (hu : unify g r.head = .ok subst) {q : Requirement} (hq : q ∈ r.body)
    (ha : subst.apply q.pattern = .ok x) : x ∈ goals := by
  subst hr
  obtain ⟨_, hunify, hall⟩ := h.met g hg
  obtain rfl := Except.ok.inj (hu.symm.trans hunify)
  obtain ⟨_, hmem, happ⟩ := hall q hq
  obtain rfl := Except.ok.inj (ha.symm.trans happ)
  exact hmem

end RuleChoice

theorem MeetInOrder.edge_of_mem {body : List Requirement} (h : MeetInOrder subst edges body)
    (hlen : edges.length = body.length) {q : Requirement} (hq : q ∈ body) :
    ∃ e ∈ edges, e.Meets subst q := by
  obtain ⟨i, hi⟩ := List.mem_iff_getElem?.mp hq
  have hlt : i < edges.length := by
    rw [hlen]
    exact (List.getElem?_eq_some_iff.mp hi).1
  obtain ⟨q', hq', hmeets⟩ := h i edges[i] (List.getElem?_eq_getElem hlt)
  obtain rfl := Option.some.inj (hi.symm.trans hq')
  exact ⟨edges[i], List.getElem_mem hlt, hmeets⟩

/-- Goals need each other in no circle if each but the first needs lower ones, and none needs the
first. -/
theorem not_needsNow_cycle {goals : Set Term} {rule : Term → Rule} (rank : Term → Nat)
    (hneeds : ∀ a b, a ∈ goals → NeedsNow rule a b →
      b ∈ goals ∧ b ≠ goal ∧ (a ≠ goal → rank b < rank a)) {g : Term} (hg : g ∈ goals) :
    ¬Relation.TransGen (NeedsNow rule) g g := by
  have hdescends : ∀ b, Relation.TransGen (NeedsNow rule) g b →
      b ∈ goals ∧ b ≠ goal ∧ (g ≠ goal → rank b < rank g) := by
    intro b hb
    induction hb with
    | single hstep => exact hneeds g _ hg hstep
    | tail _ hstep ih =>
      obtain ⟨hb, hbne, hblt⟩ := ih
      obtain ⟨hc, hcne, hclt⟩ := hneeds _ _ hb hstep
      exact ⟨hc, hcne, fun hne => Nat.lt_trans (hclt hbne) (hblt hne)⟩
  intro hcycle
  obtain ⟨_, hne, hlt⟩ := hdescends g hcycle
  exact lt_irrefl _ (hlt hne)

/-- The edges for the requirements of a rule, and recorded proofs behind them. An edge either leads
to one of these proofs, or is a promise of the rule's own goal, which none of them is for. -/
structure Unfolding (catalog : Catalog) (table : ProofTable) (goal : Term) (r : Rule)
    (subst : Substitution) (edges : List Edge) (proofs : Set Proof) : Prop where
  mem : r ∈ catalog.rules
  applies : unify goal r.head = .ok subst
  length : edges.length = r.body.length
  meet : MeetInOrder subst edges r.body
  recorded : ∀ q ∈ proofs, ∃ id, table.get? id = some q
  other : ∀ q ∈ proofs, q.goal ≠ goal
  edge : ∀ e, e ∈ edges ∨ (∃ q ∈ proofs, e ∈ q.edges) →
    (e.goal = goal ∧ ∀ id, e.link ≠ .built id) ∨
      ∃ q ∈ proofs, table.get? e.link.target = some q ∧ q.goal = e.goal

/-- One proof for each goal that there are proofs of, with the rule that it takes. No proof of the
goal stands lower. -/
structure Picks (catalog : Catalog) (table : ProofTable) (proofs : Set Proof)
    (pick : Term → Proof) (ruleOf : Term → Rule) : Prop where
  mem : ∀ x ∈ Proof.goal '' proofs, pick x ∈ proofs
  goal : ∀ x ∈ Proof.goal '' proofs, (pick x).goal = x
  fits : ∀ x ∈ Proof.goal '' proofs, ∃ subst, (pick x).Fits catalog (ruleOf x) subst
  lowest : ∀ x ∈ Proof.goal '' proofs, ∀ q ∈ proofs, q.goal = x →
    table.height (pick x) ≤ table.height q

namespace Unfolding

variable {proofs : Set Proof}

theorem finite_goals (h : Unfolding catalog table goal r subst edges proofs) :
    (insert goal (Proof.goal '' proofs)).Finite := by
  have hslots : (table.get? '' {id | id < table.size}).Finite := (Set.finite_lt_nat _).image _
  have hsub : some '' proofs ⊆ table.get? '' {id | id < table.size} := by
    rintro _ ⟨q, hq, rfl⟩
    obtain ⟨id, hid⟩ := h.recorded q hq
    exact ⟨id, ProofTable.lt_size_of_get? hid, hid⟩
  have hproofs : proofs.Finite :=
    (hslots.subset hsub).of_finite_image (Option.some_injective _).injOn
  exact (hproofs.image _).insert _

theorem exists_picks (h : Unfolding catalog table goal r subst edges proofs)
    (hs : table.Sound catalog) : ∃ pick ruleOf, Picks catalog table proofs pick ruleOf := by
  have hlowest : ∀ x ∈ Proof.goal '' proofs, ∃ q r, q ∈ proofs ∧ q.goal = x ∧
      (∃ subst, q.Fits catalog r subst) ∧
        ∀ q' ∈ proofs, q'.goal = x → table.height q ≤ table.height q' := by
    rintro x ⟨q₀, hq₀, hgoal₀⟩
    obtain ⟨q, ⟨hq, hgoal⟩, hmin⟩ := (measure table.height).wf.has_min
      {q | q ∈ proofs ∧ q.goal = x} ⟨q₀, hq₀, hgoal₀⟩
    obtain ⟨id, hid⟩ := h.recorded q hq
    obtain ⟨r, hfits⟩ := hs.fits id q hid
    exact ⟨q, r, hq, hgoal, hfits, fun q' hq' hgoal' => Nat.le_of_not_lt (hmin q' ⟨hq', hgoal'⟩)⟩
  have : Nonempty Rule := ⟨r⟩
  have : Nonempty Proof := ⟨⟨0, goal, 0, "", [], false⟩⟩
  choose! pick ruleOf hpick using hlowest
  exact ⟨pick, ruleOf, fun x hx => (hpick x hx).1, fun x hx => (hpick x hx).2.1,
    fun x hx => (hpick x hx).2.2.1, fun x hx => (hpick x hx).2.2.2⟩

/-- An edge for a requirement of the rule that is chosen for a goal. -/
def EdgeAt (goal : Term) (edges : List Edge) (proofs : Set Proof) (pick : Term → Proof)
    (x : Term) (e : Edge) : Prop :=
  x = goal ∧ e ∈ edges ∨ x ≠ goal ∧ x ∈ Proof.goal '' proofs ∧ e ∈ (pick x).edges

variable {pick : Term → Proof} {ruleOf : Term → Rule}

theorem meets (h : Unfolding catalog table goal r subst edges proofs)
    (hp : Picks catalog table proofs pick ruleOf) {x : Term}
    (hx : x ∈ insert goal (Proof.goal '' proofs)) :
    Function.update ruleOf goal r x ∈ catalog.rules ∧
      ∃ s, Clausal.unify x (Function.update ruleOf goal r x).head = .ok s ∧
        ∀ q ∈ (Function.update ruleOf goal r x).body, ∃ e, e.Meets s q ∧
          EdgeAt goal edges proofs pick x e := by
  by_cases hxg : x = goal
  · subst hxg
    rw [Function.update_self]
    refine ⟨h.mem, subst, h.applies, fun q hq => ?_⟩
    obtain ⟨e, he, hmeets⟩ := h.meet.edge_of_mem h.length hq
    exact ⟨e, hmeets, .inl ⟨rfl, he⟩⟩
  · have hmem : x ∈ Proof.goal '' proofs := hx.resolve_left hxg
    obtain ⟨s, hfits⟩ := hp.fits x hmem
    have hunify := hfits.unify
    rw [hp.goal x hmem] at hunify
    rw [Function.update_of_ne hxg]
    refine ⟨hfits.mem, s, hunify, fun q hq => ?_⟩
    obtain ⟨e, he, hmeets⟩ := hfits.meet.edge_of_mem hfits.length hq
    exact ⟨e, hmeets, .inr ⟨hxg, hmem, he⟩⟩

theorem edgeAt (h : Unfolding catalog table goal r subst edges proofs)
    (hp : Picks catalog table proofs pick ruleOf) {x : Term} {e : Edge}
    (he : EdgeAt goal edges proofs pick x e) :
    (e.goal = goal ∧ ∀ id, e.link ≠ .built id) ∨
      ∃ q ∈ proofs, table.get? e.link.target = some q ∧ q.goal = e.goal := by
  rcases he with ⟨_, he⟩ | ⟨_, hx, he⟩
  · exact h.edge e (.inl he)
  · exact h.edge e (.inr ⟨pick x, hp.mem x hx, he⟩)

/-- What a goal needs at once has a proof that stands lower than the one picked for the goal. -/
theorem needsNow (h : Unfolding catalog table goal r subst edges proofs)
    (hs : table.Sound catalog) (hp : Picks catalog table proofs pick ruleOf) {a b : Term}
    (ha : a ∈ insert goal (Proof.goal '' proofs))
    (hab : NeedsNow (Function.update ruleOf goal r) a b) :
    b ∈ insert goal (Proof.goal '' proofs) ∧ b ≠ goal ∧
      (a ≠ goal → table.height (pick b) < table.height (pick a)) := by
  obtain ⟨s', hu', q, hq, hstrict, happ⟩ := hab
  obtain ⟨_, s, hu, hall⟩ := h.meets hp ha
  obtain rfl := Except.ok.inj (hu.symm.trans hu')
  obtain ⟨e, hmeets, hwhere⟩ := hall q hq
  obtain ⟨id, hbuilt⟩ := hmeets.built hstrict
  obtain rfl : e.goal = b := Except.ok.inj (hmeets.goal.symm.trans happ)
  rcases h.edgeAt hp hwhere with ⟨_, hpromise⟩ | ⟨q', hq', htarget, hgoal'⟩
  · exact absurd hbuilt (hpromise id)
  · have hmem : e.goal ∈ Proof.goal '' proofs := ⟨q', hq', hgoal'⟩
    refine ⟨Set.mem_insert_of_mem _ hmem, hgoal' ▸ h.other q' hq', fun hne => ?_⟩
    rcases hwhere with ⟨hag, _⟩ | ⟨_, _, he⟩
    · exact absurd hag hne
    · rw [hbuilt] at htarget
      have hlower : table.height q' < table.height (pick a) :=
        hs.height_lt ⟨e, he, id, hbuilt, htarget⟩
      exact Nat.lt_of_le_of_lt (hp.lowest e.goal hmem q' hq' hgoal') hlower

/-- A rule whose edges unfold proves its goal. The other goals take the rules of their lowest
proofs, so that what is needed at once stands ever lower. -/
theorem proves (h : Unfolding catalog table goal r subst edges proofs)
    (hs : table.Sound catalog) : r.Proves catalog goal := by
  obtain ⟨pick, ruleOf, hp⟩ := h.exists_picks hs
  refine ⟨insert goal (Proof.goal '' proofs), Function.update ruleOf goal r,
    ⟨h.finite_goals, fun x hx => (h.meets hp hx).1, fun x hx => ?_, fun x hx => ?_⟩,
    Set.mem_insert _ _, Function.update_self _ _ _⟩
  · obtain ⟨_, s, hu, hall⟩ := h.meets hp hx
    refine ⟨s, hu, fun q hq => ?_⟩
    obtain ⟨e, hmeets, hwhere⟩ := hall q hq
    refine ⟨e.goal, ?_, hmeets.goal⟩
    rcases h.edgeAt hp hwhere with ⟨heq, _⟩ | ⟨q', hq', _, hgoal'⟩
    · exact heq ▸ Set.mem_insert _ _
    · exact Set.mem_insert_of_mem _ ⟨q', hq', hgoal'⟩
  · exact not_needsNow_cycle (fun x => table.height (pick x))
      (fun a b ha hab => h.needsNow hs hp ha hab) hx

end Unfolding

end Clausal
