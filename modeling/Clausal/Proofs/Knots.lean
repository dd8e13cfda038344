import Clausal.Proofs.CallOrder

namespace Clausal

variable {V S : Type}

namespace Cells

/-- Later cells, in which what was filled still is. -/
def Keeps (a b : Cells V) : Prop :=
  ∀ id v, a.get? id = some v → b.get? id = some v

/-- Cells to which only new ones have been added, or filled. -/
structure Grows (a b : Cells V) : Prop where
  size : a.size ≤ b.size
  old : ∀ id < a.size, b.get? id = a.get? id

/-- From `a` through each of `mids` to `b`, what is filled stays so. -/
def Steady (a : Cells V) (mids : List (Cells V)) (b : Cells V) : Prop :=
  (a :: mids ++ [b]).Pairwise Keeps

variable {a b c : Cells V} {l l' : List (Cells V)}

theorem lt_size_of_get? {id : CellId} {v : V} (h : a.get? id = some v) : id < a.size := by
  by_contra hn
  have hs : a[id]? = none := Array.getElem?_eq_none (Nat.le_of_not_lt hn)
  simp [get?, hs] at h

theorem Keeps.refl (a : Cells V) : a.Keeps a :=
  fun _ _ h => h

theorem Keeps.trans (h : a.Keeps b) (h' : b.Keeps c) : a.Keeps c :=
  fun id v hv => h' id v (h id v hv)

theorem keeps_fill (a : Cells V) (id : CellId) (v : V) : a.Keeps (a.fill id v) :=
  fun _ _ h => get?_fill_of_some h id v

theorem Keeps.value? (h : a.Keeps b) {d : Deferred V} {v : V} (hv : d.value? a = some v) :
    d.value? b = some v := by
  cases d with
  | known goal value => exact hv
  | awaiting goal cell => exact h cell v hv

theorem Grows.refl (a : Cells V) : a.Grows a :=
  ⟨le_rfl, fun _ _ => rfl⟩

theorem Grows.trans (h : a.Grows b) (h' : b.Grows c) : a.Grows c :=
  ⟨le_trans h.size h'.size, fun id hid =>
    (h'.old id (lt_of_lt_of_le hid h.size)).trans (h.old id hid)⟩

theorem Grows.keeps (h : a.Grows b) : a.Keeps b := by
  intro id v hv
  rw [h.old id (lt_size_of_get? hv), hv]

theorem grows_reserve (a : Cells V) : a.Grows a.reserve.2 :=
  ⟨by simp [reserve], fun id _ => get?_reserve a id⟩

theorem size_fill (a : Cells V) (id : CellId) (v : V) : (a.fill id v).size = a.size := by
  unfold fill
  split <;> simp

theorem get?_fill_other {id other : CellId} {v : V} (h : id ≠ other) :
    (a.fill other v).get? id = a.get? id := by
  unfold fill
  split
  · rfl
  · simp [get?, Ne.symm h]

theorem get?_fill_self {id : CellId} {v : V} (hid : id < a.size) (h : a.get? id = none) :
    (a.fill id v).get? id = some v := by
  unfold fill
  rw [h]
  simp [get?, hid]

/-- A cell that is empty when it is added is filled in the end, and none before it is touched. -/
theorem grows_fill (h : a.reserve.2.Grows b) (v : V) :
    a.Grows (b.fill a.size v) ∧ (b.fill a.size v).get? a.size = some v := by
  have hlt : a.size < b.size := by
    have hsize := h.size
    simp only [reserve, Array.size_push] at hsize
    exact hsize
  have hnone : b.get? a.size = none := by
    rw [h.old a.size (by simp [reserve]), get?_reserve]
    simp [get?]
  refine ⟨⟨?_, fun id hid => ?_⟩, get?_fill_self hlt hnone⟩
  · rw [size_fill]
    exact le_of_lt hlt
  · rw [get?_fill_other (Nat.ne_of_lt hid)]
    exact ((grows_reserve a).trans h).old id hid

theorem steady_nil (h : a.Keeps b) : Steady a [] b := by
  simpa [Steady] using h

theorem Steady.append (h : Steady a l b) (h' : Steady b l' c) : Steady a (l ++ l') c := by
  obtain ⟨hl, _, hb⟩ := List.pairwise_append.mp h
  obtain ⟨hafter, hl'⟩ := List.pairwise_cons.mp h'
  unfold Steady
  rw [← List.cons_append, List.append_assoc]
  exact List.pairwise_append.mpr ⟨hl, hl', fun x hx y hy =>
    (hb x hx b (List.mem_singleton_self _)).trans (hafter y hy)⟩

end Cells

namespace Workshop

variable {w : Workshop V S} {p : Proof}

theorem grows_openCell (w : Workshop V S) (p : Proof) : w.cells.Grows (w.openCell p).2.cells := by
  unfold openCell
  split
  · exact Cells.grows_reserve w.cells
  · exact Cells.Grows.refl w.cells

theorem keeps_fillCell (w : Workshop V S) (cell : Option CellId) (v : V) :
    w.cells.Keeps (w.fillCell cell v).cells := by
  cases cell with
  | none => exact Cells.Keeps.refl w.cells
  | some id => exact Cells.keeps_fill w.cells id v

/-- Once a construction is done its cell holds its value, and the cells before it are as they
were. -/
theorem grows_fillCell (w₁ : Workshop V S) (h : (w.openCell p).2.cells.Grows w₁.cells) (v : V) :
    w.cells.Grows (w₁.fillCell (w.openCell p).1 v).cells ∧ ∀ c, (w.openCell p).1 = some c →
      (w₁.fillCell (w.openCell p).1 v).cells.get? c = some v := by
  unfold openCell at h ⊢
  split at h
  next hr =>
    obtain ⟨hgrows, hfilled⟩ := Cells.grows_fill h v
    rw [if_pos hr]
    refine ⟨hgrows, fun c hc => ?_⟩
    obtain rfl := Option.some.inj hc
    exact hfilled
  next hr =>
    rw [if_neg hr]
    exact ⟨h, fun c hc => by cases hc⟩

end Workshop

/-- The cells that handles found when they were called. -/
def foundCells (calls : List (HandleCall V S)) : List (Cells V) :=
  calls.map (·.found.cells)

/-- Every node of a tree has had its rule called, with a value for an answer, which `cells` hold in
the cell of the node. -/
def CallTree.Filled (cells : Cells V) (t : CallTree (Mark V S)) : Prop :=
  ∀ n ∈ t.nodes, ∃ call v, n.2.call = some call ∧ call.answer = .ok v ∧
    ∀ c, n.2.cell = some c → cells.get? c = some v

namespace Proof

variable {handles : RuleId → Handle V S} {table : ProofTable}
  {outer : List (Proof × Option CellId)} {p : Proof} {w w' : Workshop V S}
  {items : List (Term × Input V)} {parts : List (CallTree (Mark V S))}
  {answer : Except Failure V} {t : CallTree (Mark V S)}

/-- No cell that was there is touched while inputs are made. -/
theorem Making.grows (h : Making handles table outer p w items parts w') :
    (w.openCell p).2.cells.Grows w'.cells := by
  induction h with
  | start => exact Cells.Grows.refl _
  | hold h he hl hq hg hc ih => exact ih
  | @make outer p w items parts w₁ e q items' parts' w₂ v caller h he hq hg hfree hsub hend ha ih
      ihsub =>
    have hdone := Workshop.grows_fillCell { w₂ with caller := caller } ihsub v
    exact ih.trans hdone.1

/-- The cell of each construction that is done holds the value that its rule answered with. -/
theorem Making.filled (h : Making handles table outer p w items parts w') :
    ∀ n ∈ CallTree.nodesOf parts, ∀ c call v, n.2.cell = some c → n.2.call = some call →
      call.answer = .ok v → w'.cells.get? c = some v := by
  induction h with
  | start => simp [CallTree.nodesOf]
  | @hold outer p w items parts w₁ e id q c h he hl hq hg hc ih =>
    rwa [CallTree.nodesOf_held]
  | @make outer p w items parts w₁ e q items' parts' w₂ v caller h he hq hg hfree hsub hend ha ih
      ihsub =>
    obtain ⟨hgrows, hcell⟩ :=
      Workshop.grows_fillCell { w₂ with caller := caller } hsub.grows v
    intro n hn c call u hc hcall hu
    rcases CallTree.mem_nodesOf_node.mp hn with hn | hn | rfl
    · exact hgrows.keeps c u (ih n hn c call u hc hcall hu)
    · exact Workshop.keeps_fillCell { w₂ with caller := caller } _ v c u
        (ihsub n hn c call u hc hcall hu)
    · obtain rfl := Option.some.inj hcall
      obtain rfl := Except.ok.inj hu
      exact hcell c hc

theorem steady_call {w₁ : Workshop V S} {b : Cells V} (items : List (Term × Input V))
    (answer : Except InvocationError V)
    (h : Cells.Steady (w.openCell p).2.cells (foundCells (CallTree.callsOf parts)) w₁.cells)
    (hb : w₁.cells.Keeps b) :
    Cells.Steady w.cells
      (foundCells (CallTree.callsOf parts ++ [p.call items w₁ answer])) b := by
  have hopen := Cells.steady_nil (Workshop.grows_openCell w p).keeps
  have hlast : Cells.Steady w₁.cells [w₁.cells] b := by
    simp [Cells.Steady, Cells.Keeps.refl, hb]
  rw [foundCells, List.map_append]
  exact (hopen.append h).append hlast

/-- What is filled stays so from one call to the next. -/
theorem Making.steady (h : Making handles table outer p w items parts w') :
    Cells.Steady (w.openCell p).2.cells (foundCells (CallTree.callsOf parts)) w'.cells := by
  induction h with
  | start => exact Cells.steady_nil (Cells.Keeps.refl _)
  | @hold outer p w items parts w₁ e id q c h he hl hq hg hc ih =>
    rwa [callsOf_held]
  | @make outer p w items parts w₁ e q items' parts' w₂ v caller h he hq hg hfree hsub hend ha ih
      ihsub =>
    have hsub' := steady_call items' (.ok v) ihsub
      (Workshop.keeps_fillCell { w₂ with caller := caller } (w₁.openCell q).1 v)
    rw [callsOf_append, callsOf_cons, calls_node, foundCells, List.map_append]
    exact ih.append (by simpa [foundCells, CallTree.callsOf, CallTree.nodesOf] using hsub')

theorem Ends.steady (h : Ends handles table outer p w answer t w') :
    Cells.Steady w.cells (foundCells t.calls) w'.cells := by
  induction h with
  | @made outer p w items parts w₁ v caller h hend ha =>
    rw [calls_node]
    exact steady_call _ _ h.steady (Workshop.keeps_fillCell { w₁ with caller := caller } _ v)
  | refused h hend ha =>
    rw [calls_node]
    exact steady_call _ _ h.steady (Cells.Keeps.refl _)
  | @cut outer p w items parts w₁ e q f t w₂ rest h he hq hfree hsub hrest hblank ih =>
    have hopen := Cells.steady_nil (Workshop.grows_openCell w p).keeps
    have hsteady := (hopen.append h.steady).append ih
    rw [calls_node, callsOf_append, callsOf_cons, callsOf_blank hblank]
    simpa [foundCells] using hsteady

/-- A construction that comes to a value has called the rule of each node, and the value that it
answered with is in the cell of the node. -/
theorem Ends.filled {v : V} (h : Ends handles table outer p w (.ok v) t w') :
    t.Filled w'.cells ∧
      ∃ m parts call, t = .node p m parts ∧ m.call = some call ∧ call.answer = .ok v := by
  cases h with
  | @made _ _ _ items parts w₁ _ caller h hend ha =>
    have hcell := (Workshop.grows_fillCell { w₁ with caller := caller } h.grows v).2
    refine ⟨fun n hn => ?_, _, _, _, rfl, rfl, rfl⟩
    rcases List.mem_append.mp hn with hn | hn
    · obtain ⟨call, u, hcall, hu⟩ := h.answered n hn
      exact ⟨call, u, hcall, hu, fun c hc =>
        Workshop.keeps_fillCell { w₁ with caller := caller } _ v c u
          (h.filled n hn c call u hc hcall hu)⟩
    · obtain rfl := List.mem_singleton.mp hn
      exact ⟨_, v, rfl, rfl, hcell⟩

end Proof

namespace CallTree

variable {α : Type} {outer around : List (Proof × α)} {t : CallTree α} {p : Proof} {m : α}
  {parts : List (CallTree α)}

/-- The nodes around a node are in the tree, or around the tree. -/
theorem Within.mem_around (h : Within outer t around p m parts) :
    ∀ o ∈ (p, m) :: around, o ∈ t.nodes ∨ o ∈ outer := by
  induction h with
  | root =>
    intro o ho
    rcases List.mem_cons.mp ho with rfl | ho
    · exact .inl (by simp [nodes])
    · exact .inr ho
  | part ht h ih =>
    intro o ho
    rcases ih o ho with hin | hout
    · exact .inl (List.mem_append_left _ (mem_nodesOf.mpr ⟨_, ht, hin⟩))
    · rcases List.mem_cons.mp hout with rfl | hout
      · exact .inl (by simp [nodes])
      · exact .inr hout

theorem Within.trans {around' : List (Proof × α)} {q : Proof} {m' : α}
    {t' : CallTree α} {parts' : List (CallTree α)} (h : Within outer t around p m parts)
    (ht : t' ∈ parts) (h' : Within ((p, m) :: around) t' around' q m' parts') :
    Within outer t around' q m' parts' := by
  induction h with
  | root => exact .part ht h'
  | part hs h ih => exact .part hs (ih ht h')

/-- The outermost of the nodes around a node is the root of the tree. -/
theorem Within.outermost (h : Within outer t around p m parts) : ∃ inner p₀ m₀ parts₀,
    t = .node p₀ m₀ parts₀ ∧ (p, m) :: around = inner ++ (p₀, m₀) :: outer := by
  induction h with
  | root => exact ⟨[], _, _, _, rfl, rfl⟩
  | part ht h ih =>
    obtain ⟨inner, p₁, m₁, parts₁, rfl, heq⟩ := ih
    exact ⟨inner ++ [(p₁, m₁)], _, _, _, rfl, by simpa using heq⟩

end CallTree

section

variable {cells : Cells V} {t : CallTree (Mark V S)} {around : List (Proof × Mark V S)} {p q : Proof}
  {m : Mark V S} {parts : List (CallTree (Mark V S))} {call : HandleCall V S}

theorem deferred_of_given {inputs : Inputs V} {i : Nat} {e : Edge} {v : V}
    (h : inputs.items[i]? = some (e.goal, e.given v)) :
    inputs.deferred i = .ok (.known e.goal v) := by
  unfold Edge.given at h
  split at h <;> simp [Inputs.deferred, h]

/-- The rule of a node is called for the goal of the node. -/
theorem made_of_mem_nodes (hs : t.Served []) (hn : (p, m) ∈ t.nodes) (hc : m.call = some call) :
    call ∈ t.calls ∧ call.inputs.goal = p.goal := by
  obtain ⟨around, parts, hw⟩ := CallTree.exists_within hn []
  exact ⟨List.mem_filterMap.mpr ⟨_, hn, hc⟩, (hs around p m parts call hw hc).goal⟩

/-- What is given for a back link holds the value of the innermost construction of the proof that
the link leads to. -/
theorem held_value (hf : t.Filled cells) (hs : t.Served [])
    (hw : CallTree.Within [] t around p m parts) (hm : m.call = some call)
    {outer : List Proof} {table : ProofTable}
    (hparts : CallTree.PartsUnfold table outer p.edges parts) {i : Nat}
    (hi : parts[i]? = some (.held q)) : ∃ d m' made u, call.inputs.deferred i = .ok d ∧
      d.goal = q.goal ∧ ((p, m) :: around).lookup q = some m' ∧ (q, m') ∈ t.nodes ∧
      m'.call = some made ∧ made.answer = .ok u ∧ d.value? cells = some u := by
  have hlt : i < p.edges.length := hparts.length_eq ▸ (List.getElem?_eq_some_iff.mp hi).1
  obtain ⟨x, hx, hfed⟩ := (hs around p m parts call hw hm).items i _ _
    (List.getElem?_eq_getElem hlt) hi
  cases hfed with
  | @held _ m' c hg hq hc =>
    have hmem : (q, m') ∈ t.nodes := by
      rcases hw.mem_around _ (mem_of_lookup hq) with hin | hout
      · exact hin
      · simp at hout
    obtain ⟨made, u, hmade, hu, hcell⟩ := hf (q, m') hmem
    exact ⟨.awaiting q.goal c, m', made, u, by simp [Inputs.deferred, hx], rfl, hq, hmem, hmade, hu,
      hcell c hc⟩

/-- What is given for any other edge is the value of the part. -/
theorem made_value (hs : t.Served []) (hw : CallTree.Within [] t around p m parts)
    (hm : m.call = some call) {outer : List Proof} {table : ProofTable}
    (hparts : CallTree.PartsUnfold table outer p.edges parts) {i : Nat} {m' : Mark V S}
    {parts' : List (CallTree (Mark V S))} (hi : parts[i]? = some (.node q m' parts')) :
    ∃ made u, call.inputs.deferred i = .ok (.known q.goal u) ∧ (q, m') ∈ t.nodes ∧
      m'.call = some made ∧ made.answer = .ok u := by
  have hlt : i < p.edges.length := hparts.length_eq ▸ (List.getElem?_eq_some_iff.mp hi).1
  obtain ⟨x, hx, hfed⟩ := (hs around p m parts call hw hm).items i _ _
    (List.getElem?_eq_getElem hlt) hi
  cases hfed with
  | @made _ _ _ made u hg hmade hu =>
    refine ⟨made, u, ?_, (hw.trans (List.mem_of_getElem? hi) .root).mem_nodes, hmade, hu⟩
    rw [hg]
    exact deferred_of_given hx

/-- A deferred value that was given to a rule is there, and a rule called for its goal gave it. -/
theorem deferred_value (hf : t.Filled cells) (hs : t.Served []) {table : ProofTable}
    (hu : t.Unfolds table [] p) (hp : ∃ id, table.get? id = some p) (hc : call ∈ t.calls) {i : Nat}
    {d : Deferred V} (hd : call.inputs.deferred i = .ok d) :
    ∃ u, d.value? cells = some u ∧ ∃ made ∈ t.calls, made.inputs.goal = d.goal ∧
      made.answer = .ok u := by
  obtain ⟨n, hn, hcall⟩ := List.mem_filterMap.mp hc
  obtain ⟨around, parts, hw⟩ := CallTree.exists_within hn []
  obtain ⟨_, outer, hparts⟩ := hu.within hp hw
  have hlt : i < parts.length := by
    rw [hparts.length_eq, ← (hs around n.1 n.2 parts call hw hcall).length]
    by_contra hge
    simp [Inputs.deferred, List.getElem?_eq_none (Nat.le_of_not_lt hge)] at hd
  have hpart := List.getElem?_eq_getElem hlt
  cases hi : parts[i] with
  | held q =>
    rw [hi] at hpart
    obtain ⟨d', m', made, u, hd', hgoal, _, hmem, hmade, hanswer, hvalue⟩ :=
      held_value hf hs hw hcall hparts hpart
    obtain rfl := Except.ok.inj (hd.symm.trans hd')
    obtain ⟨hin, hfor⟩ := made_of_mem_nodes hs hmem hmade
    exact ⟨u, hvalue, made, hin, hfor.trans hgoal.symm, hanswer⟩
  | node q m' parts' =>
    rw [hi] at hpart
    obtain ⟨made, u, hd', hmem, hmade, hanswer⟩ := made_value hs hw hcall hparts hpart
    obtain rfl := Except.ok.inj (hd.symm.trans hd')
    obtain ⟨hin, hfor⟩ := made_of_mem_nodes hs hmem hmade
    exact ⟨u, rfl, made, hin, hfor, hanswer⟩

end

variable {catalog : Catalog} {policy : Policy}

/-- Invocations tie all knots. Whatever a cell holds it keeps; and once an invocation has given a
value, each deferred value that a rule was given is there, the answer to a call of a rule for its
goal. For a back link to a proof under construction it is the answer of the innermost construction,
so it is the value of the invocation itself if the plan's own proof is not under construction
again. -/
theorem invoke_ties_knots {clauses : List (String × Clause)} {past : List Search}
    {s next : Prover V} {budget : Nat} {goal : Term} {plan : Plan}
    (hb : Catalog.build clauses = .ok catalog) (hs : Session catalog policy past s)
    (hc : s.compile budget goal = some (.ok plan, next)) (handles : RuleId → Handle V S)
    (w : Workshop V S) :
    ∃ answer w', plan.invoke handles w = some (answer, w') ∧
      (w.cells :: (plan.calls handles w).map (·.found.cells) ++ [w'.cells]).Pairwise
        (fun a b => ∀ (d : Deferred V) u, d.value? a = some u → d.value? b = some u) ∧
      ∀ v, answer = .ok v →
        (∀ call ∈ plan.calls handles w, ∀ i d, call.inputs.deferred i = .ok d →
          ∃ u, d.value? w'.cells = some u ∧ ∃ made ∈ plan.calls handles w,
            made.inputs.goal = d.goal ∧ made.answer = .ok u) ∧
        ∃ t : CallTree (Mark V S), t.Unfolds plan.table [] plan.proof ∧
          t.nodes.map (·.2.call) = (plan.calls handles w).map some ∧
          ∀ around p m parts call (i : Nat) q, CallTree.Within [] t around p m parts →
            m.call = some call → parts[i]? = some (.held q) →
            ∃ d m' made u, call.inputs.deferred i = .ok d ∧ d.goal = q.goal ∧
              ((p, m) :: around).lookup q = some m' ∧ m'.call = some made ∧
              made.answer = .ok u ∧ d.value? w'.cells = some u ∧
              (q = plan.proof → (∀ o ∈ ((p, m) :: around).dropLast, o.1 ≠ plan.proof) → u = v) := by
  have hrun := Plan.runnable_of_compile hb hs hc
  obtain ⟨answer, w', t, hinvoke, hends, hcalls⟩ := hrun.ends handles w
  have hunfolds : t.Unfolds plan.table [] plan.proof := hends.unfolds
  have hserved : t.Served [] := hends.served rfl
  refine ⟨answer, w', hinvoke, ?_, ?_⟩
  · rw [hcalls]
    exact hends.steady.imp fun hkeeps d u => hkeeps.value?
  · rintro v rfl
    obtain ⟨hfilled, m₀, parts₀, call₀, rfl, hcall₀, hanswer₀⟩ := hends.filled
    obtain ⟨before, last, k, _, horder, _, _, hk⟩ := hends.order
    obtain rfl := hk ⟨v, rfl⟩
    refine ⟨fun call hcall i d hd => ?_, _, hunfolds, ?_, ?_⟩
    · rw [hcalls] at hcall ⊢
      exact deferred_value hfilled hserved hunfolds ⟨_, hrun.recorded⟩ hcall hd
    · rw [hcalls, horder]
      simp
    · intro around p m parts call i q hw hm hi
      obtain ⟨_, outer, hparts⟩ := hunfolds.within ⟨_, hrun.recorded⟩ hw
      obtain ⟨d, m', made, u, hd, hgoal, hlookup, _, hmade, hu, hvalue⟩ :=
        held_value hfilled hserved hw hm hparts hi
      refine ⟨d, m', made, u, hd, hgoal, hlookup, hmade, hu, hvalue, ?_⟩
      rintro rfl hinner
      obtain ⟨inner, p₁, m₁, parts₁, hroot, hall⟩ := hw.outermost
      cases hroot
      rw [hall] at hlookup hinner
      have hnone : inner.lookup plan.proof = none := by
        rw [List.lookup_eq_none_iff]
        intro o ho
        have hne := hinner o (by simpa using ho)
        simpa using Ne.symm hne
      rw [List.lookup_append, hnone] at hlookup
      obtain rfl : m₀ = m' := by simpa using hlookup
      obtain rfl := Option.some.inj (hcall₀.symm.trans hmade)
      exact Except.ok.inj (hu.symm.trans hanswer₀)

theorem knot_tied : ∃ plan next,
    (Prover.start knotCatalog Policy.default : Prover Nat).compile 9 (.const "Edge") =
      some (.ok plan, next) ∧ ∃ v w', plan.invoke countInputs ⟨#[], 0⟩ = some (.ok v, w') ∧
      ∀ call ∈ plan.calls countInputs ⟨#[], 0⟩, ∀ i d, call.inputs.deferred i = .ok d →
        ∃ u, d.value? w'.cells = some u := by
  obtain ⟨plan, next, hc⟩ := knot_compiles
  obtain ⟨answer, w', hinvoke, _, hties⟩ :=
    invoke_ties_knots build_knot .start hc countInputs ⟨#[], 0⟩
  cases answer with
  | error f =>
    have hrun := Plan.runnable_of_compile build_knot .start hc
    obtain ⟨q, _, items, w₀, source, hrefused, _⟩ := Proof.build_error hrun.whole hinvoke
    cases hrefused
  | ok v =>
    refine ⟨plan, next, hc, v, w', hinvoke, fun call hcall i d hd => ?_⟩
    obtain ⟨u, hu, _⟩ := (hties v rfl).1 call hcall i d hd
    exact ⟨u, hu⟩

end Clausal
