import Clausal.Construction
import Clausal.Proofs.Height
import Clausal.Proofs.Marking

namespace Clausal

namespace ProofTable

/-- The numbers of the proofs that are not under construction. -/
def unopened (table : ProofTable) (opened : Opened) : Finset ProofId :=
  (Finset.range table.size).filter fun id => opened.lookup id = none

theorem mem_unopened {table : ProofTable} {opened : Opened} {id : ProofId} :
    id ∈ table.unopened opened ↔ id < table.size ∧ opened.lookup id = none := by
  simp [unopened]

/-- The numbers of the proofs that are not under construction once `p` is. -/
def left (table : ProofTable) (opened : Opened) (p : Proof) : Finset ProofId :=
  if p.recursive then (table.unopened opened).erase p.id else table.unopened opened

/-- How deep constructions may nest while a proof is built. Each proof that is opened for a back
link may be high, but there is one less to open; built links lead down. -/
noncomputable def need (table : ProofTable) (opened : Opened) (p : Proof) : Nat :=
  (table.left opened p).card * (table.size + 1) + table.height p + 1

theorem card_unopened_le (table : ProofTable) (opened : Opened) :
    (table.unopened opened).card ≤ table.size := by
  have hcard := Finset.card_filter_le (Finset.range table.size) fun id => opened.lookup id = none
  rwa [Finset.card_range] at hcard

theorem left_subset (table : ProofTable) (opened : Opened) (p : Proof) :
    table.left opened p ⊆ table.unopened opened := by
  unfold left
  split
  · exact Finset.erase_subset _ _
  · exact Finset.Subset.refl _

theorem card_left_lt {table : ProofTable} {opened : Opened} {p : Proof} (hr : p.recursive = true)
    (hp : p.id ∈ table.unopened opened) :
    (table.left opened p).card < (table.unopened opened).card := by
  rw [left, if_pos hr]
  exact Finset.card_erase_lt_of_mem hp

theorem need_le (plan : Plan) : plan.table.need [] plan.proof ≤ plan.nesting := by
  have hleft := Finset.card_le_card (plan.table.left_subset [] plan.proof)
  have hsize := plan.table.card_unopened_le []
  have hheight := plan.table.height_le_size plan.proof
  have hmul := Nat.mul_le_mul_right (plan.table.size + 1) (le_trans hleft hsize)
  have hsquare : plan.nesting =
      plan.table.size * (plan.table.size + 1) + (plan.table.size + 1) := Nat.succ_mul _ _
  rw [need, hsquare]
  omega

theorem need_le_of_builds {catalog : Catalog} {table : ProofTable} {opened : Opened} {p q : Proof}
    {n : Nat} (hs : table.Sound catalog) (h : table.Builds q p)
    (hn : (table.unopened opened).card * (table.size + 1) + table.height p ≤ n) :
    table.need opened q ≤ n := by
  have hsub := Finset.card_le_card (table.left_subset opened q)
  have hmul := Nat.mul_le_mul_right (table.size + 1) hsub
  have hheight := hs.height_lt h
  unfold need
  omega

/-- A proof that is opened leaves one less to open, which makes up for its height. -/
theorem need_le_of_unopened {table : ProofTable} {opened : Opened} {p q : Proof} {n : Nat}
    (hr : q.recursive = true) (hq : q.id ∈ table.unopened opened)
    (hn : (table.unopened opened).card * (table.size + 1) + table.height p ≤ n) :
    table.need opened q ≤ n := by
  have hlt := card_left_lt hr hq
  have hmul := Nat.mul_le_mul_right (table.size + 1) hlt
  have hheight := table.height_le_size q
  rw [Nat.succ_mul] at hmul
  unfold need
  omega

end ProofTable

namespace Proof

/-- Back links in a proof, and in those that it leads to, lead to proofs that are marked recursive. -/
def Guarded (table : ProofTable) (p : Proof) : Prop :=
  ∀ q, Relation.ReflTransGen table.Leads p q → ∀ e ∈ q.edges, ∀ id, e.link = .back id →
    ∀ target, table.get? id = some target → target.recursive = true

theorem Guarded.edge {table : ProofTable} {p q : Proof} {e : Edge} (h : p.Guarded table)
    (he : e ∈ p.edges) (hq : table.get? e.link.target = some q) : q.Guarded table :=
  fun r hr => h r (.head ⟨e, he, hq⟩ hr)

variable {V S : Type} {table table' : ProofTable} {p : Proof} {w w' : Workshop V S}

/-- The cells that are open while a proof is built. -/
def opening (p : Proof) (w : Workshop V S) (opened : Opened) : Opened :=
  ((w.openCell p).1.toList.map fun id => (p.id, id)) ++ opened

theorem unopened_opening (table : ProofTable) (p : Proof) (w : Workshop V S) (opened : Opened) :
    table.unopened (p.opening w opened) = table.left opened p := by
  unfold ProofTable.left opening Workshop.openCell
  split
  next hr =>
    ext id
    rw [Finset.mem_erase, ProofTable.mem_unopened, ProofTable.mem_unopened]
    by_cases hid : id = p.id
    · simp [hid, Cells.reserve]
    · have hne : (id == p.id) = false := by simpa using hid
      simp [Cells.reserve, List.lookup_cons, hne, hid]
  next hr => rfl

theorem build_succ (handles : RuleId → Handle V S) (table : ProofTable) (budget : Nat)
    (opened : Opened) (p : Proof) (w : Workshop V S) :
    p.build handles table (budget + 1) opened w =
      match inputs (p.input (build handles table budget (p.opening w opened)) table
        (p.opening w opened)) 0 p.edges (w.openCell p).2 with
      | none => none
      | some (.error f, w) => some (.error f, w)
      | some (.ok items, w') =>
        match handles p.rule ⟨p.goal, p.name, items⟩ w'.cells w'.caller with
        | (.ok v, caller) => some (.ok v, { w' with caller := caller }.fillCell (w.openCell p).1 v)
        | (.error source, caller) =>
          some (.error (p.invocationFailure source), { w' with caller := caller }) :=
  rfl

section

variable {input input' : Nat → Edge → Workshop V S → Option (Built V S (Input V))} {es : List Edge}
  {k : Nat}

theorem inputs_mono {r : Built V S (List (Term × Input V))}
    (h : ∀ i, ∀ e ∈ es, ∀ w r, input i e w = some r → input' i e w = some r)
    (hr : inputs input k es w = some r) : inputs input' k es w = some r := by
  induction es generalizing k w r with
  | nil => exact hr
  | cons e es ih =>
    have htail : ∀ i, ∀ e ∈ es, ∀ w r, input i e w = some r → input' i e w = some r :=
      fun i e he => h i e (List.mem_cons_of_mem _ he)
    unfold inputs at hr ⊢
    cases hi : input k e w with
    | none => simp [hi] at hr
    | some first =>
      rw [h k e List.mem_cons_self w first hi]
      rw [hi] at hr
      obtain ⟨answer, w₁⟩ := first
      cases answer with
      | error f => exact hr
      | ok x =>
        dsimp only at hr ⊢
        cases hrest : inputs input (k + 1) es w₁ with
        | none => simp [hrest] at hr
        | some rest =>
          rw [ih htail hrest]
          rw [hrest] at hr
          exact hr

theorem inputs_isSome (h : ∀ i, ∀ e ∈ es, ∀ w, (input i e w).isSome = true) :
    (inputs input k es w).isSome = true := by
  induction es generalizing k w with
  | nil => rfl
  | cons e es ih =>
    obtain ⟨⟨answer, w₁⟩, hi⟩ := Option.isSome_iff_exists.mp (h k e List.mem_cons_self w)
    unfold inputs
    rw [hi]
    cases answer with
    | error f => rfl
    | ok x =>
      have hrest : (inputs input (k + 1) es w₁).isSome = true :=
        ih fun i e he => h i e (List.mem_cons_of_mem _ he)
      obtain ⟨⟨answers, w₂⟩, hr⟩ := Option.isSome_iff_exists.mp hrest
      dsimp only
      rw [hr]
      cases answers <;> rfl

theorem inputs_error {f : Failure} (h : inputs input k es w = some (.error f, w')) :
    ∃ i, ∃ e ∈ es, ∃ w₀, input i e w₀ = some (.error f, w') := by
  induction es generalizing k w with
  | nil => simp [inputs] at h
  | cons e es ih =>
    unfold inputs at h
    split at h
    · simp at h
    next f' w₁ hi =>
      cases h
      exact ⟨k, e, List.mem_cons_self, w, hi⟩
    next x w₁ hi =>
      split at h
      · simp at h
      next f' w₂ hr =>
        cases h
        obtain ⟨i, e', he', w₀, hi'⟩ := ih hr
        exact ⟨i, e', List.mem_cons_of_mem _ he', w₀, hi'⟩
      · simp at h

end

section

variable {build build' : Proof → Workshop V S → Option (Built V S V)} {opened : Opened} {e : Edge}
  {q : Proof} {k : Nat}

theorem input_mono {r : Built V S (Input V)} (hq : table.get? e.link.target = some q)
    (hq' : table'.get? e.link.target = some q) (hb : ∀ w r, build q w = some r → build' q w = some r)
    (hr : p.input build table opened k e w = some r) :
    p.input build' table' opened k e w = some r := by
  unfold input at hr ⊢
  cases hl : e.link with
  | built id =>
    rw [hl] at hq hq'
    simp only [hl, show table.get? id = some q from hq, show table'.get? id = some q from hq'] at hr ⊢
    cases hbuild : build q w with
    | none => simp [hbuild] at hr
    | some first =>
      rw [hb w first hbuild]
      rw [hbuild] at hr
      exact hr
  | back id =>
    rw [hl] at hq hq'
    simp only [hl, show table.get? id = some q from hq, show table'.get? id = some q from hq'] at hr ⊢
    cases ho : opened.lookup q.id with
    | some cell =>
      rw [ho] at hr
      exact hr
    | none =>
      simp only [ho] at hr ⊢
      cases hbuild : build q w with
      | none => simp [hbuild] at hr
      | some first =>
        rw [hb w first hbuild]
        rw [hbuild] at hr
        exact hr

theorem input_isSome (hq : table.get? e.link.target = some q)
    (hbuilt : ∀ id, e.link = .built id → (build q w).isSome = true)
    (hback : ∀ id, e.link = .back id → opened.lookup q.id = none → (build q w).isSome = true) :
    (p.input build table opened k e w).isSome = true := by
  unfold input
  cases hl : e.link with
  | built id =>
    rw [hl] at hq
    obtain ⟨⟨answer, w₁⟩, hr⟩ := Option.isSome_iff_exists.mp (hbuilt id hl)
    simp only [show table.get? id = some q from hq, hr]
    cases answer <;> rfl
  | back id =>
    rw [hl] at hq
    simp only [show table.get? id = some q from hq]
    cases ho : opened.lookup q.id with
    | some cell => rfl
    | none =>
      obtain ⟨⟨answer, w₁⟩, hr⟩ := Option.isSome_iff_exists.mp (hback id hl ho)
      simp only [hr]
      cases answer <;> rfl

theorem input_error {f : Failure} (hq : table.get? e.link.target = some q)
    (h : p.input build table opened k e w = some (.error f, w')) :
    build q w = some (.error f, w') := by
  unfold input at h
  cases hl : e.link with
  | built id =>
    rw [hl] at hq
    simp only [hl, show table.get? id = some q from hq] at h
    split at h
    · simp at h
    next f' w₁ hb =>
      cases h
      exact hb
    · simp at h
  | back id =>
    rw [hl] at hq
    simp only [hl, show table.get? id = some q from hq] at h
    split at h
    · simp at h
    · split at h
      · simp at h
      next f' w₁ hb =>
        cases h
        exact hb
      · simp at h

end

variable {handles : RuleId → Handle V S}

/-- A construction comes out the same with more room, and when more proofs are known. -/
theorem build_extends (he : table.Extends table') {n m : Nat} (hnm : n ≤ m) (hp : p.Whole table)
    {opened : Opened} {r : Built V S V} (h : p.build handles table n opened w = some r) :
    p.build handles table' m opened w = some r := by
  induction n generalizing m p opened w r with
  | zero => simp [build] at h
  | succ n ih =>
    obtain ⟨m, rfl⟩ : ∃ m', m = m' + 1 := ⟨m - 1, by omega⟩
    rw [build_succ] at h ⊢
    generalize p.opening w opened = opened' at h ⊢
    have same : ∀ i, ∀ e ∈ p.edges, ∀ w r,
        p.input (build handles table n opened') table opened' i e w = some r →
        p.input (build handles table' m opened') table' opened' i e w = some r := by
      intro i e hm w r hr
      obtain ⟨q, hq, _, hw⟩ := hp.edge hm
      exact input_mono hq (he.get? _ q hq) (fun w r => ih (by omega) hw) hr
    cases hi : inputs (p.input (build handles table n opened') table opened') 0 p.edges
        (w.openCell p).2 with
    | none => simp [hi] at h
    | some items =>
      rw [inputs_mono same hi]
      rw [hi] at h
      exact h

/-- There is room for the proof that an edge leads to: a built link leads down, and a back link
opens its target unless that is open. -/
theorem need_le_of_edge {catalog : Catalog} (hs : table.Sound catalog) (hg : p.Guarded table)
    {e : Edge} {q : Proof} {opened : Opened} {n : Nat} (he : e ∈ p.edges)
    (hq : table.get? e.link.target = some q)
    (hn : (table.unopened opened).card * (table.size + 1) + table.height p ≤ n)
    (hfree : ∀ id, e.link = .back id → opened.lookup q.id = none) : table.need opened q ≤ n := by
  cases hl : e.link with
  | built id =>
    rw [hl] at hq
    exact ProofTable.need_le_of_builds hs ⟨e, he, id, hl, hq⟩ hn
  | back id =>
    rw [hl] at hq
    have hrec : q.recursive = true := hg p .refl e he id hl q hq
    have hid : q.id = id := hs.id id q hq
    have hmem : q.id ∈ table.unopened opened :=
      ProofTable.mem_unopened.mpr ⟨hid ▸ ProofTable.lt_size_of_get? hq, hfree id hl⟩
    exact ProofTable.need_le_of_unopened hrec hmem hn

/-- There is always room enough to build a proof. -/
theorem build_isSome {catalog : Catalog} (hs : table.Sound catalog) {n : Nat} {opened : Opened}
    (hp : p.Whole table) (hg : p.Guarded table) (hn : table.need opened p ≤ n) :
    (p.build handles table n opened w).isSome = true := by
  induction n generalizing p opened w with
  | zero => simp [ProofTable.need] at hn
  | succ n ih =>
    have hleft : (table.unopened (p.opening w opened)).card * (table.size + 1) + table.height p ≤
        n := by
      rw [unopened_opening]
      unfold ProofTable.need at hn
      omega
    rw [build_succ]
    generalize p.opening w opened = opened' at hleft ⊢
    have answered : ∀ i, ∀ e ∈ p.edges, ∀ w,
        (p.input (build handles table n opened') table opened' i e w).isSome = true := by
      intro i e he w
      obtain ⟨q, hq, _, hw⟩ := hp.edge he
      have room := need_le_of_edge hs hg he hq hleft
      refine input_isSome hq (fun id hl => ih hw (hg.edge he hq) (room ?_)) fun id hl ho =>
        ih hw (hg.edge he hq) (room fun _ _ => ho)
      intro id' hl'
      cases hl.symm.trans hl'
    have hinputs := inputs_isSome (k := 0) (w := (w.openCell p).2) answered
    obtain ⟨⟨answer, w₁⟩, hi⟩ := Option.isSome_iff_exists.mp hinputs
    rw [hi]
    cases answer with
    | error f => rfl
    | ok items =>
      dsimp only
      split <;> rfl

/-- A handle of the rule of `q` refused to give a value, and this is the failure that came of it. -/
def Refused (handles : RuleId → Handle V S) (q : Proof) (f : Failure) (w' : Workshop V S) : Prop :=
  ∃ items, ∃ w₀ : Workshop V S, ∃ source, handles q.rule ⟨q.goal, q.name, items⟩ w₀.cells w₀.caller =
    (.error source, w'.caller) ∧ w'.cells = w₀.cells ∧ f = q.invocationFailure source

/-- A construction fails only where a rule's own handle does. -/
theorem build_error {n : Nat} {opened : Opened} {f : Failure} (hp : p.Whole table)
    (h : p.build handles table n opened w = some (.error f, w')) :
    ∃ q, Relation.ReflTransGen table.Leads p q ∧ Refused handles q f w' := by
  induction n generalizing p opened w with
  | zero => simp [build] at h
  | succ n ih =>
    rw [build_succ] at h
    split at h
    · simp at h
    next f' w₁ hi =>
      cases h
      obtain ⟨i, e, he, w₀, hinput⟩ := inputs_error hi
      obtain ⟨q, hq, _, hw⟩ := hp.edge he
      obtain ⟨r, hr, hrefused⟩ := ih hw (input_error hq hinput)
      exact ⟨r, .head ⟨e, he, hq⟩ hr, hrefused⟩
    next items w₁ hi =>
      split at h
      · simp at h
      next source caller hh =>
        cases h
        exact ⟨p, .refl, items, w₁, source, hh, rfl, rfl⟩

end Proof

variable {catalog : Catalog} {policy : Policy}

/-- A plan with all that it takes to build its value. -/
structure Plan.Runnable (catalog : Catalog) (plan : Plan) : Prop where
  sound : plan.table.Sound catalog
  recorded : plan.table.get? plan.proof.id = some plan.proof
  whole : plan.proof.Whole plan.table
  marked : Marked [] plan.table

/-- Whatever is resolved can be built. -/
theorem Learnt.runnable (hi : catalog.Indexed) {past : List Search} {known : Knowledge}
    (h : Learnt catalog policy past known) {goal : Term} {p : Proof}
    (hp : known.ledger.get? goal = some (.resolved p)) :
    p.goal = goal ∧ (Plan.mk known.table p).Runnable catalog := by
  obtain ⟨⟨_, graph⟩, hmarked⟩ := (marked_kept policy hi).learnt h
  obtain ⟨hgoal, hrecorded, hwhole⟩ := graph.warranted.resolved goal p hp
  exact ⟨hgoal, graph.sound, hrecorded, hwhole, hmarked⟩

namespace Plan.Runnable

variable {plan : Plan}

theorem guarded (h : plan.Runnable catalog) : plan.proof.Guarded plan.table := by
  intro q hq e he id hl target htarget
  have hrecorded : ∃ i, plan.table.get? i = some q := by
    rcases Relation.ReflTransGen.cases_tail hq with rfl | ⟨_, _, e', _, he'⟩
    · exact ⟨_, h.recorded⟩
    · exact ⟨_, he'⟩
  obtain ⟨i, hi⟩ := hrecorded
  exact (h.marked.recorded i q hi e he id hl).proof target htarget

/-- Building comes to an end, and comes out the same with more room. -/
theorem build (h : plan.Runnable catalog) {V S : Type} (handles : RuleId → Handle V S)
    (w : Workshop V S) : ∃ built, plan.invoke handles w = some built ∧
      ∀ room, plan.nesting ≤ room →
        plan.proof.build handles plan.table room [] w = some built := by
  have hsome : (plan.invoke handles w).isSome = true :=
    Proof.build_isSome h.sound h.whole h.guarded (ProofTable.need_le plan)
  obtain ⟨built, hb⟩ := Option.isSome_iff_exists.mp hsome
  refine ⟨built, hb, fun room hroom => ?_⟩
  exact Proof.build_extends ⟨le_rfl, fun _ _ h => h⟩ hroom h.whole hb

end Plan.Runnable

/-- Every plan that a session compiles has all that it takes. -/
theorem Plan.runnable_of_compile {clauses : List (String × Clause)} {V : Type} {past : List Search}
    {s next : Prover V} {budget : Nat} {goal : Term} {plan : Plan}
    (hb : Catalog.build clauses = .ok catalog) (hs : Session catalog policy past s)
    (hc : s.compile budget goal = some (.ok plan, next)) : plan.Runnable catalog := by
  have hi := Catalog.build_indexed hb
  have ha := ((proofGraph_invariant policy hi).kept.learnt hs.learnt.2.2).1
  obtain ⟨htable, hresolved⟩ := Prover.compile_resolved ha hc
  have h := ((hs.compile hc).learnt.2.2.runnable hi hresolved).2
  rwa [← htable] at h

/-- Every plan can be run. Each promise in it leads to a recorded proof of its goal, which is marked
recursive; and by whatever handles, building it comes to an end, with a value unless one of the
handles refuses to give one. -/
theorem plan_runs {clauses : List (String × Clause)} {V : Type} {past : List Search}
    {s next : Prover V} {budget : Nat} {goal : Term} {plan : Plan}
    (hb : Catalog.build clauses = .ok catalog) (hs : Session catalog policy past s)
    (hc : s.compile budget goal = some (.ok plan, next)) :
    (∀ q, Relation.ReflTransGen plan.table.Leads plan.proof q → ∀ e ∈ q.edges,
      ∀ id, e.link = .back id → ∃ target, plan.table.get? id = some target ∧
        target.goal = e.goal ∧ target.recursive = true) ∧
    ∀ {S : Type} (handles : RuleId → Handle V S) (w : Workshop V S), ∃ answer w',
      plan.invoke handles w = some (answer, w') ∧
      (∀ room, plan.nesting ≤ room →
        plan.proof.build handles plan.table room [] w = some (answer, w')) ∧
      ∀ f, answer = .error f → ∃ q, Relation.ReflTransGen plan.table.Leads plan.proof q ∧
        Proof.Refused handles q f w' := by
  have hi := Catalog.build_indexed hb
  have ha := ((proofGraph_invariant policy hi).kept.learnt hs.learnt.2.2).1
  obtain ⟨htable, hresolved⟩ := Prover.compile_resolved ha hc
  have hrun : plan.Runnable catalog := by
    have h := ((hs.compile hc).learnt.2.2.runnable hi hresolved).2
    rwa [← htable] at h
  constructor
  · intro q hq e he id hl
    obtain ⟨target, htarget, hgoal⟩ := hrun.whole q hq e he
    rw [hl] at htarget
    exact ⟨target, htarget, hgoal, hrun.guarded q hq e he id hl target htarget⟩
  · intro S handles w
    obtain ⟨⟨answer, w'⟩, hinvoke, hroom⟩ := hrun.build handles w
    refine ⟨answer, w', hinvoke, hroom, ?_⟩
    rintro f rfl
    exact Proof.build_error hrun.whole hinvoke

/-- How many inputs a rule is given, with a count of the calls. -/
def countInputs (_ : RuleId) : Handle Nat Nat :=
  fun inputs _ calls => (.ok inputs.items.length, calls + 1)

theorem knot_plan_runs : ∃ plan next,
    (Prover.start knotCatalog Policy.default : Prover Nat).compile 9 (.const "Edge") =
      some (.ok plan, next) ∧ ∃ v w', plan.invoke countInputs ⟨#[], 0⟩ = some (.ok v, w') := by
  have hok : ((Prover.start knotCatalog Policy.default : Prover Nat).compile 9
      (.const "Edge")).any (fun a => a.1.isOk) = true := by decide
  obtain ⟨⟨answer, next⟩, h, ha⟩ := Option.any_eq_true _ _ |>.mp hok
  cases answer with
  | error f => cases ha
  | ok plan =>
    have hb : Catalog.build knot = .ok knotCatalog := by decide
    obtain ⟨_, hbuilds⟩ := plan_runs hb .start h
    obtain ⟨answer, w', hinvoke, _, herror⟩ := hbuilds countInputs ⟨#[], 0⟩
    cases answer with
    | error f =>
      obtain ⟨q, _, items, w₀, source, hrefused, _⟩ := herror f rfl
      cases hrefused
    | ok v => exact ⟨plan, next, h, v, w', hinvoke⟩

end Clausal
