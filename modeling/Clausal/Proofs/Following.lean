import Clausal.Proofs.Specificity
import Clausal.Proofs.StackGoals
import Clausal.Proofs.Unchained

namespace Clausal

mutual

/-- A proof with the proofs it is built from, written out as a tree. It makes no promises. -/
inductive Unfolds (table : ProofTable) : Proof → ProofTree → Prop
  | node {p subproofs} : UnfoldsAll table p.edges subproofs →
      Unfolds table p (.node p.goal p.rule p.name subproofs)

inductive UnfoldsAll (table : ProofTable) : List Edge → List ProofTree → Prop
  | nil : UnfoldsAll table [] []
  | cons {e es id q tree trees} : e.link = .built id → table.get? id = some q →
      Unfolds table q tree → UnfoldsAll table es trees → UnfoldsAll table (e :: es) (tree :: trees)

end

section

variable {table table' : ProofTable}

mutual

theorem Unfolds.extends (he : table.Extends table') {p : Proof} {tree : ProofTree} :
    Unfolds table p tree → Unfolds table' p tree
  | .node h => .node (h.extends he)

theorem UnfoldsAll.extends (he : table.Extends table') {es : List Edge} {trees : List ProofTree} :
    UnfoldsAll table es trees → UnfoldsAll table' es trees
  | .nil => .nil
  | .cons hlink hq h hs => .cons hlink (he.get? _ _ hq) (h.extends he) (hs.extends he)

end

theorem UnfoldsAll.concat {es : List Edge} {trees : List ProofTree} {e : Edge} {id : ProofId}
    {q : Proof} {tree : ProofTree} (h : UnfoldsAll table es trees) (hlink : e.link = .built id)
    (hq : table.get? id = some q) (ht : Unfolds table q tree) :
    UnfoldsAll table (es ++ [e]) (trees ++ [tree]) := by
  induction es generalizing trees with
  | nil =>
    cases h
    exact .cons hlink hq ht .nil
  | cons e' es ih =>
    cases h with
    | cons hlink' hq' ht' hs => exact .cons hlink' hq' ht' (ih hs)

end

/-- A success of a frame and the proof that the plain recursion finds by the same rule. -/
def Success.Shown (table : ProofTable) (goal : Term) (s : Success) (p : Rule × ProofTree) : Prop :=
  s.rule = p.1 ∧ ∃ subproofs, UnfoldsAll table s.edges subproofs ∧
    p.2 = .node goal p.1.id p.1.name subproofs

/-- The frame at an index of the stack does what the plain recursion does: the rules done so far
give the same proofs and failures, and the rule on trial has met the same requirements. -/
structure Frame.Follows (catalog : Catalog) (tie : TieBreak) (table : ProofTable) (i : Nat)
    (f : Frame) : Prop where
  low : i ≤ f.low
  trialLow : ∀ t, f.trial = some t → i ≤ t.low
  tried : ∃ tried : Tried, catalog.candidates f.goal =
      tried.map Prod.fst ++ ((f.trial.map Trial.rule).toList ++ f.remaining) ∧
    (∀ t ∈ tried, t.1.solve (catalog.solved tie) f.goal = some t.2) ∧
    List.Forall₂ (Success.Shown table f.goal) f.successes tried.proofs ∧
    f.attempted.map Attempt.unchained = tried.attempts
  trial : ∀ t, f.trial = some t → unify f.goal t.rule.head = .ok t.subst ∧
    ∃ trees, UnfoldsAll table t.edges trees ∧
      t.rule.meet (catalog.solved tie) t.subst 0 t.rule.body =
        (t.rule.meet (catalog.solved tie) t.subst t.edges.length
          (t.rule.body.drop t.edges.length)).map (Except.map (trees ++ ·))

theorem Tried.proofs_append (xs ys : Tried) : Tried.proofs (xs ++ ys) = xs.proofs ++ ys.proofs :=
  List.filterMap_append

theorem Tried.attempts_append (xs ys : Tried) :
    Tried.attempts (xs ++ ys) = xs.attempts ++ ys.attempts :=
  List.filterMap_append

section

variable {catalog : Catalog} {tie : TieBreak} {table table' : ProofTable} {i : Nat}
  {f f₀ top top' : Frame} {states : States}

theorem Frame.Follows.extends (h : f.Follows catalog tie table i) (he : table.Extends table') :
    f.Follows catalog tie table' i := by
  obtain ⟨tried, hrules, htried, hproofs, hattempts⟩ := h.tried
  refine ⟨h.low, h.trialLow, ⟨tried, hrules, htried, ?_, hattempts⟩, fun t ht => ?_⟩
  · refine hproofs.imp ?_
    rintro s p ⟨hrule, subproofs, hu, hp⟩
    exact ⟨hrule, subproofs, hu.extends he, hp⟩
  · obtain ⟨hu, trees, hall, hbody⟩ := h.trial t ht
    exact ⟨hu, trees, hall.extends he, hbody⟩

theorem Frame.Follows.trails (h : f₀.Follows catalog tie table i) (ht : f.Trails f₀)
    (hlow : ∀ t, f.trial = some t → i ≤ t.low) : f.Follows catalog tie table i := by
  obtain ⟨tried, hrules, htried, hproofs, hattempts⟩ := h.tried
  have hrule : f.trial.map Trial.rule = f₀.trial.map Trial.rule := by
    cases h₀ : f₀.trial with
    | none => rw [ht.idle h₀]
    | some t₀ =>
      obtain ⟨t, hft, hr, _⟩ := ht.trial t₀ h₀
      simp [hft, hr]
  refine ⟨ht.low ▸ h.low, hlow, ⟨tried, ?_, ?_, ?_, ?_⟩, fun t hft => ?_⟩
  · rw [ht.goal, hrule, ht.remaining]
    exact hrules
  · rw [ht.goal]
    exact htried
  · rw [ht.goal, ht.successes]
    exact hproofs
  · rw [ht.attempted]
    exact hattempts
  · obtain ⟨t₀, ht₀, hr, hs, hedges, _⟩ := ht.trial_of hft
    rw [hr, hs, hedges, ht.goal]
    exact h.trial t₀ ht₀

theorem Frame.Follows.start {goal : Term} {id : ProofId} :
    (Frame.start catalog i goal id).Follows catalog tie table i where
  low := le_rfl
  trialLow := by simp [Frame.start]
  tried := ⟨[], by simp [Frame.start], by simp, by simp [Frame.start, Tried.proofs],
    by simp [Frame.start, Tried.attempts]⟩
  trial := by simp [Frame.start]

/-- The rule on trial is done, and fails for some reason. -/
theorem Frame.Follows.giveUp (h : f.Follows catalog tie table i) {t t' : Trial} {a : Attempt}
    (ht : f.trial = some t) (hlow : i ≤ t'.low)
    (ha : t.rule.solve (catalog.solved tie) f.goal = some (.error a.unchained)) :
    (f.giveUp t' a).Follows catalog tie table i := by
  obtain ⟨tried, hrules, htried, hproofs, hattempts⟩ := h.tried
  refine ⟨Nat.le_min.mpr ⟨h.low, hlow⟩, by simp [Frame.giveUp],
    ⟨tried ++ [(t.rule, .error a.unchained)], ?_, ?_, ?_, ?_⟩, by simp [Frame.giveUp]⟩
  · rw [ht] at hrules
    simpa [Frame.giveUp] using hrules
  · intro x hx
    rcases List.mem_append.mp hx with hx | hx
    · exact htried x hx
    · obtain rfl := List.mem_singleton.mp hx
      exact ha
  · rw [Tried.proofs_append]
    simpa [Tried.proofs, Frame.giveUp] using hproofs
  · rw [Tried.attempts_append]
    simpa [Tried.attempts, Frame.giveUp] using hattempts

theorem Frame.Follows.solve_of_met (h : f.Follows catalog tie table i) {t : Trial}
    (ht : f.trial = some t) {met : Except Attempt (List ProofTree)}
    (hmet : t.rule.meet (catalog.solved tie) t.subst t.edges.length
      (t.rule.body.drop t.edges.length) = some met) :
    ∃ trees, UnfoldsAll table t.edges trees ∧ t.rule.solve (catalog.solved tie) f.goal =
      some ((met.map (trees ++ ·)).map fun subproofs =>
        .node f.goal t.rule.id t.rule.name subproofs) := by
  obtain ⟨hu, trees, hall, hbody⟩ := h.trial t ht
  refine ⟨trees, hall, ?_⟩
  rw [hmet, Option.map_some] at hbody
  rw [Rule.solve, hu]
  simp only [hbody]
  rfl

theorem drop_body {t : Trial} {r : Requirement} (hr : t.next? = some r) :
    t.rule.body.drop t.edges.length = r :: t.rule.body.drop (t.edges.length + 1) :=
  List.drop_eq_getElem?_toList_append.trans (by
    have he : t.rule.body[t.edges.length]? = some r := hr
    simp [he])

theorem Frame.Follows.tryRule (h : f.Follows catalog tie table i) {rule : Rule} {rest : List Rule}
    (ht : f.trial = none) (hr : f.remaining = rule :: rest) :
    (f.tryRule i rule rest).Follows catalog tie table i := by
  obtain ⟨tried, hrules, htried, hproofs, hattempts⟩ := h.tried
  rw [ht, hr] at hrules
  unfold Frame.tryRule
  split
  next subst hu =>
    refine ⟨h.low, ?_, ⟨tried, by simpa using hrules, htried, hproofs, hattempts⟩, ?_⟩
    · intro t hft
      obtain rfl : _ = t := Option.some.inj hft
      exact le_rfl
    · intro t hft
      obtain rfl : _ = t := Option.some.inj hft
      refine ⟨hu, [], .nil, ?_⟩
      simp only [List.length_nil, List.drop_zero, List.nil_append]
      cases rule.meet (catalog.solved tie) subst 0 rule.body with
      | none => rfl
      | some met => cases met <;> rfl
  next reason hu =>
    refine ⟨h.low, by simp [ht], ⟨tried ++ [(rule, .error (.mismatch rule.name reason))], ?_, ?_,
      ?_, ?_⟩, by simp [ht]⟩
    · simpa [ht] using hrules
    · intro x hx
      rcases List.mem_append.mp hx with hx | hx
      · exact htried x hx
      · obtain rfl := List.mem_singleton.mp hx
        rw [Rule.solve, hu]
    · rw [Tried.proofs_append]
      simpa [Tried.proofs] using hproofs
    · rw [Tried.attempts_append]
      simpa [Tried.attempts, Attempt.unchained] using hattempts

theorem Frame.Follows.succeed (h : f.Follows catalog tie table i) {t : Trial}
    (ht : f.trial = some t) (hn : t.next? = none) :
    (f.succeed t).Follows catalog tie table i := by
  have hdrop : t.rule.body.drop t.edges.length = [] :=
    List.drop_eq_nil_of_le (List.getElem?_eq_none_iff.mp hn)
  have hmet : t.rule.meet (catalog.solved tie) t.subst t.edges.length
      (t.rule.body.drop t.edges.length) = some (.ok []) := by
    rw [hdrop, Rule.meet]
  obtain ⟨trees, hall, hrule⟩ := h.solve_of_met ht hmet
  obtain ⟨tried, hrules, htried, hproofs, hattempts⟩ := h.tried
  refine ⟨Nat.le_min.mpr ⟨h.low, h.trialLow t ht⟩, by simp [Frame.succeed],
    ⟨tried ++ [(t.rule, .ok (.node f.goal t.rule.id t.rule.name trees))], ?_, ?_, ?_, ?_⟩,
    by simp [Frame.succeed]⟩
  · rw [ht] at hrules
    simpa [Frame.succeed] using hrules
  · intro x hx
    rcases List.mem_append.mp hx with hx | hx
    · exact htried x hx
    · obtain rfl := List.mem_singleton.mp hx
      show t.rule.solve (catalog.solved tie) f.goal = _
      simpa [Except.map] using hrule
  · rw [Tried.proofs_append]
    exact List.rel_append hproofs (.cons ⟨rfl, trees, hall, rfl⟩ .nil)
  · rw [Tried.attempts_append]
    simpa [Tried.attempts, Frame.succeed] using hattempts

section

variable {t : Trial} {r : Requirement} {goal : Term} (h : f.Follows catalog tie table i)
  (ht : f.trial = some t) (hr : t.next? = some r) (ha : t.subst.apply r.pattern = .ok goal)

include h ht hr ha

/-- The rule on trial fails with the requirement that it comes to. -/
theorem Frame.Follows.solve_of_failed {failure : Failure}
    (hf : catalog.solved tie goal = some (.error failure)) :
    t.rule.solve (catalog.solved tie) f.goal =
      some (.error (.subgoal t.rule.name t.edges.length goal failure)) := by
  have hmet : t.rule.meet (catalog.solved tie) t.subst t.edges.length
      (t.rule.body.drop t.edges.length) =
        some (.error (.subgoal t.rule.name t.edges.length goal failure)) := by
    rw [drop_body hr, Rule.meet, ha]
    simp only [hf]
    rfl
  obtain ⟨trees, _, hrule⟩ := h.solve_of_met ht hmet
  exact hrule

/-- The requirement that the rule on trial comes to is met by a recorded proof. -/
theorem Frame.Follows.receive {p : Proof} {tree : ProofTree} {low : Nat} (hlow : i < low)
    (hp : table.get? p.id = some p) (htree : catalog.solved tie goal = some (.ok tree))
    (hu : Unfolds table p tree) :
    (f.receive goal (.ok (.built p.id)) low).Follows catalog tie table i := by
  obtain ⟨hunify, trees, hall, hbody⟩ := h.trial t ht
  obtain ⟨tried, hrules, htried, hproofs, hattempts⟩ := h.tried
  have hle : i ≤ min t.low low := Nat.le_min.mpr ⟨h.trialLow t ht, by omega⟩
  simp only [Frame.receive, ht]
  refine ⟨h.low, ?_, ⟨tried, ?_, htried, hproofs, hattempts⟩, ?_⟩
  · intro t' ht'
    obtain rfl : _ = t' := Option.some.inj ht'
    exact hle
  · simpa [ht] using hrules
  · intro t' ht'
    obtain rfl : _ = t' := Option.some.inj ht'
    refine ⟨hunify, trees ++ [tree], hall.concat rfl hp hu, ?_⟩
    simp only [List.length_append, List.length_singleton]
    rw [hbody, drop_body hr, Rule.meet, ha]
    simp only [htree]
    cases t.rule.meet (catalog.solved tie) t.subst (t.edges.length + 1)
        (t.rule.body.drop (t.edges.length + 1)) with
    | none => rfl
    | some met =>
      cases met with
      | error a => rfl
      | ok rest => simp [Except.map]

end

/-- A frame goes on following the plain recursion, unless the depth bound cuts it short. -/
theorem Frame.Follows.progress (h : top.Follows catalog tie table i)
    (hp : top.Progress states i top') (hcut : ¬top'.IsCut)
    (hprogress : ∀ t r goal, top.trial = some t → t.next? = some r →
      t.subst.apply r.pattern = .ok goal → ∀ j id, states goal ≠ some (.inProgress j id))
    (hprovisional : ∀ t r goal, top.trial = some t → t.next? = some r →
      t.subst.apply r.pattern = .ok goal → ∀ k o chain, states goal ≠ some (.provisional k o chain))
    (hresolved : ∀ t r goal, top.trial = some t → t.next? = some r →
      t.subst.apply r.pattern = .ok goal → ∀ p, states goal = some (.resolved p) →
        table.get? p.id = some p ∧
          ∃ tree, catalog.solved tie goal = some (.ok tree) ∧ Unfolds table p tree)
    (hfailed : ∀ t r goal, top.trial = some t → t.next? = some r →
      t.subst.apply r.pattern = .ok goal → ∀ f, states goal = some (.failed f) →
        catalog.solved tie goal = some (.error f.unchained)) :
    top'.Follows catalog tie table i := by
  cases hp with
  | tried ht hr => exact h.tryRule ht hr
  | succeeded ht hn => exact h.succeed ht hn
  | @unbound t r v ht hr ha =>
    have hmet : t.rule.meet (catalog.solved tie) t.subst t.edges.length
        (t.rule.body.drop t.edges.length) = some (.error (.unbound t.rule.name v)) := by
      rw [drop_body hr, Rule.meet, ha]
    obtain ⟨trees, _, hrule⟩ := h.solve_of_met ht hmet
    exact h.giveUp ht (h.trialLow t ht) hrule
  | @received t r goal answer low ht hr ha hans =>
    cases hans with
    | back hg _ => exact absurd hg (hprogress t r goal ht hr ha _ _)
    | cycle hg _ => exact absurd hg (hprogress t r goal ht hr ha _ _)
    | provisional hg => exact absurd hg (hprovisional t r goal ht hr ha _ _ _)
    | provisionalFailure hg _ => exact absurd hg (hprovisional t r goal ht hr ha _ _ _)
    | @resolved p low hg hlow =>
      obtain ⟨hp, tree, htree, hu⟩ := hresolved t r goal ht hr ha p hg
      exact h.receive ht hr ha hlow hp htree hu
    | @failed f cause low hg hshows hlow =>
      have hf := h.solve_of_failed ht hr ha (hfailed t r goal ht hr ha f hg)
      have hle : i ≤ min t.low low := Nat.le_min.mpr ⟨h.trialLow t ht, by omega⟩
      simp only [Frame.receive, ht]
      refine h.giveUp ht hle ?_
      rw [hf, Attempt.unchained, hshows.unchained]
    | @cut f low hg hf => exact absurd (Frame.receive_cut ht hf) hcut

end

end Clausal
