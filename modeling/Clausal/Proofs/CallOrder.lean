import Clausal.Proofs.Making

namespace Clausal

variable {V S : Type}

/-- What a rule is given for an edge: the value made for the part that the edge unfolds to, or the
cell of the innermost construction of the proof that the edge leads back to. -/
inductive Fed (around : List (Proof × Mark V S)) (e : Edge) :
    CallTree (Mark V S) → Input V → Prop
  | made {q m parts call v} (hg : q.goal = e.goal) (hm : m.call = some call)
      (ha : call.answer = .ok v) :
      Fed around e (.node q m parts) (e.given v)
  | held {q m c} (hg : q.goal = e.goal) (hq : around.lookup q = some m) (hc : m.cell = some c) :
      Fed around e (.held q) (.deferred (.awaiting q.goal c))

/-- A call is for a node: it is of the node's rule, with an input for each edge. -/
structure HandleCall.Serves (call : HandleCall V S) (p : Proof)
    (around : List (Proof × Mark V S)) (parts : List (CallTree (Mark V S))) : Prop where
  rule : call.rule = p.rule
  goal : call.inputs.goal = p.goal
  name : call.inputs.rule = p.name
  length : call.inputs.items.length = p.edges.length
  items : ∀ (i : Nat) (e : Edge) part, p.edges[i]? = some e → parts[i]? = some part →
    ∃ x, call.inputs.items[i]? = some (e.goal, x) ∧ Fed around e part x

/-- Each call in a tree is for the node at which it stands. -/
def CallTree.Served (outer : List (Proof × Mark V S)) (t : CallTree (Mark V S)) : Prop :=
  ∀ around p m parts call, Within outer t around p m parts → m.call = some call →
    call.Serves p ((p, m) :: around) parts

/-- The cells of the nodes around. -/
def cellsOf (around : List (Proof × Mark V S)) : List (Proof × Option CellId) :=
  around.map fun o => (o.1, o.2.cell)

theorem cellsOf_cons {around : List (Proof × Mark V S)} {outer : List (Proof × Option CellId)}
    (h : cellsOf around = outer) (p : Proof) (m : Mark V S) :
    cellsOf ((p, m) :: around) = (p, m.cell) :: outer :=
  congrArg (List.cons (p, m.cell)) h

theorem lookup_cellsOf (around : List (Proof × Mark V S)) (q : Proof) :
    (cellsOf around).lookup q = (around.lookup q).map Mark.cell := by
  induction around with
  | nil => rfl
  | cons o os ih =>
    obtain ⟨p, m⟩ := o
    simp only [cellsOf, List.map_cons, List.lookup_cons] at ih ⊢
    split
    · rfl
    · exact ih

theorem mem_of_lookup {β : Type} {l : List (Proof × β)} {q : Proof} {b : β}
    (h : l.lookup q = some b) : (q, b) ∈ l := by
  obtain ⟨l₁, l₂, rfl, _⟩ := List.lookup_eq_some_iff.mp h
  simp

namespace CallTree

variable {outer : List (Proof × Mark V S)} {p q : Proof} {m : Mark V S} {t : CallTree (Mark V S)}
  {parts : List (CallTree (Mark V S))}

theorem Within.mem_nodes {α : Type} {outer around : List (Proof × α)} {t : CallTree α} {p : Proof}
    {m : α} {parts : List (CallTree α)} (h : Within outer t around p m parts) :
    (p, m) ∈ t.nodes := by
  induction h with
  | root => simp [nodes]
  | part ht h ih => exact List.mem_append_left _ (mem_nodesOf.mpr ⟨_, ht, ih⟩)

theorem served_held : (CallTree.held q).Served outer := by
  intro around p m parts call h
  cases h

theorem served_node (h : ∀ call, m.call = some call → call.Serves p ((p, m) :: outer) parts)
    (hparts : ∀ t ∈ parts, t.Served ((p, m) :: outer)) : (CallTree.node p m parts).Served outer := by
  intro around q m' parts' call hw hc
  cases hw with
  | root => exact h call hc
  | part ht hw => exact hparts _ ht around q m' parts' call hw hc

theorem served_blank (h : ∀ n ∈ t.nodes, n.2.call = none) : t.Served outer := by
  intro around p m parts call hw hc
  rw [h (p, m) hw.mem_nodes] at hc
  cases hc

end CallTree

namespace Proof

variable {handles : RuleId → Handle V S} {table : ProofTable}
  {outer : List (Proof × Option CellId)} {p : Proof} {w w' : Workshop V S}
  {items : List (Term × Input V)} {parts : List (CallTree (Mark V S))}
  {answer : Except Failure V} {t : CallTree (Mark V S)}

theorem not_held_of_lookup {e : Edge} {q : Proof}
    (h : ∀ id, e.link = .back id → outer.lookup q = none) : ¬e.Held (outer.map Prod.fst) q := by
  rintro ⟨⟨id, hl⟩, hmem⟩
  obtain ⟨o, ho, rfl⟩ := List.mem_map.mp hmem
  simpa using List.lookup_eq_none_iff.mp (h id hl) o ho

/-- What has been made so far unfolds the edges that it was made for. -/
theorem Making.unfolds (h : Making handles table outer p w items parts w') :
    CallTree.PartsUnfold table (p :: outer.map Prod.fst) (p.edges.take items.length) parts := by
  have next : ∀ {p : Proof} {outer : List (Proof × Option CellId)} {items : List (Term × Input V)}
      {parts : List (CallTree (Mark V S))} {e : Edge} {x : Term × Input V}
      {t : CallTree (Mark V S)}, p.edges[items.length]? = some e →
      CallTree.PartsUnfold table (p :: outer.map Prod.fst) (p.edges.take items.length) parts →
      t.PartUnfolds table (p :: outer.map Prod.fst) e →
      CallTree.PartsUnfold table (p :: outer.map Prod.fst) (p.edges.take (items ++ [x]).length)
        (parts ++ [t]) := by
    intro p outer items parts e x t he hparts ht
    rw [List.length_append, List.length_singleton, List.take_add_one, he]
    exact hparts.append ⟨ht, trivial⟩
  induction h with
  | start => simp [CallTree.PartsUnfold]
  | @hold outer p w items parts w₁ e id q c h he hl hq hg hc ih =>
    have hmem : q ∈ ((p, (w.openCell p).1) :: outer).map Prod.fst :=
      List.mem_map.mpr ⟨_, mem_of_lookup hc, rfl⟩
    exact next he ih ⟨q, by rwa [hl], .inl ⟨⟨⟨id, hl⟩, hmem⟩, rfl⟩⟩
  | make h he hq hg hfree hsub hend ha ih ihsub =>
    rw [hend, List.take_length] at ihsub
    exact next he ih ⟨_, hq, .inr ⟨not_held_of_lookup hfree, rfl, ihsub⟩⟩

theorem Making.length_parts (h : Making handles table outer p w items parts w') :
    parts.length = items.length := by
  rw [h.unfolds.length_eq, List.length_take, min_eq_left h.length_le]

/-- Construction follows the tree that the proof unfolds to. -/
theorem Ends.unfolds (h : Ends handles table outer p w answer t w') :
    t.Unfolds table (outer.map Prod.fst) p := by
  have whole : ∀ {outer : List (Proof × Option CellId)} {p : Proof} {w w' : Workshop V S}
      {items : List (Term × Input V)} {parts : List (CallTree (Mark V S))},
      Making handles table outer p w items parts w' → items.length = p.edges.length →
      CallTree.PartsUnfold table (p :: outer.map Prod.fst) p.edges parts := by
    intro outer p w w' items parts h hend
    have hparts := h.unfolds
    rwa [hend, List.take_length] at hparts
  induction h with
  | made h hend ha => exact ⟨rfl, whole h hend⟩
  | refused h hend ha => exact ⟨rfl, whole h hend⟩
  | @cut outer p w items parts w₁ e q f t w₂ rest h he hq hfree hsub hrest hblank ih =>
    have ht : t.PartUnfolds table (p :: outer.map Prod.fst) e :=
      ⟨q, hq, .inr ⟨not_held_of_lookup hfree, ih⟩⟩
    have hedges : p.edges.take items.length ++ e :: p.edges.drop (items.length + 1) = p.edges := by
      obtain ⟨hlt, rfl⟩ := List.getElem?_eq_some_iff.mp he
      rw [← List.drop_eq_getElem_cons hlt, List.take_append_drop]
    have hrest' : CallTree.PartsUnfold table (p :: outer.map Prod.fst)
        (e :: p.edges.drop (items.length + 1)) (t :: rest) := ⟨ht, hrest⟩
    have hparts := h.unfolds.append hrest'
    rw [hedges] at hparts
    exact ⟨rfl, hparts⟩

/-- The inputs made so far are what the rule is to be given, and so it is at each node made. -/
theorem Making.served (h : Making handles table outer p w items parts w')
    {around : List (Proof × Mark V S)} (hc : cellsOf around = (p, (w.openCell p).1) :: outer) :
    (∀ (i : Nat) (e : Edge) part, p.edges[i]? = some e → parts[i]? = some part →
      ∃ x, items[i]? = some (e.goal, x) ∧ Fed around e part x) ∧
    ∀ t ∈ parts, t.Served around := by
  have next : ∀ {p : Proof} {items : List (Term × Input V)} {parts : List (CallTree (Mark V S))}
      {e : Edge} {x : Input V} {t : CallTree (Mark V S)} {around : List (Proof × Mark V S)},
      p.edges[items.length]? = some e → parts.length = items.length → Fed around e t x →
      (∀ (i : Nat) (e : Edge) part, p.edges[i]? = some e → parts[i]? = some part →
        ∃ x, items[i]? = some (e.goal, x) ∧ Fed around e part x) →
      ∀ (i : Nat) (e' : Edge) part, p.edges[i]? = some e' → (parts ++ [t])[i]? = some part →
        ∃ x', (items ++ [(e.goal, x)])[i]? = some (e'.goal, x') ∧ Fed around e' part x' := by
    intro p items parts e x t around he hlen hfed hold i e' part he' hpart
    rcases getElem?_concat_cases hpart with ⟨_, hpart⟩ | ⟨rfl, rfl⟩
    · obtain ⟨x', hx', hfed'⟩ := hold i e' part he' hpart
      exact ⟨x', getElem?_concat_below hx', hfed'⟩
    · rw [hlen, he] at he'
      obtain rfl := Option.some.inj he'
      exact ⟨x, by rw [hlen]; exact getElem?_concat_top, hfed⟩
  induction h generalizing around with
  | start => exact ⟨by simp, by simp⟩
  | @hold outer p w items parts w₁ e id q c h he hl hq hg hlookup ih =>
    obtain ⟨hown, hparts⟩ := ih hc
    have hm : ∃ m, around.lookup q = some m ∧ m.cell = some c := by
      rw [← hc, lookup_cellsOf] at hlookup
      exact Option.map_eq_some_iff.mp hlookup
    obtain ⟨m, hm, hcell⟩ := hm
    refine ⟨next he h.length_parts (.held hg hm hcell) hown, fun t ht => ?_⟩
    rcases List.mem_append.mp ht with ht | ht
    · exact hparts t ht
    · rw [List.mem_singleton.mp ht]
      exact CallTree.served_held
  | @make outer p w items parts w₁ e q items' parts' w₂ v caller h he hq hg hfree hsub hend ha ih
      ihsub =>
    obtain ⟨hown, hparts⟩ := ih hc
    refine ⟨next he h.length_parts (.made hg rfl rfl) hown, fun t ht => ?_⟩
    rcases List.mem_append.mp ht with ht | ht
    · exact hparts t ht
    · rw [List.mem_singleton.mp ht]
      have hsubs := ihsub (cellsOf_cons hc q ⟨_, some (q.call items' w₂ (.ok v))⟩)
      refine CallTree.served_node (fun call hcall => ?_) hsubs.2
      obtain rfl := Option.some.inj hcall
      exact ⟨rfl, rfl, rfl, hend, hsubs.1⟩

/-- Each handle that is called is given the inputs of the node at which it is called. -/
theorem Ends.served (h : Ends handles table outer p w answer t w')
    {around : List (Proof × Mark V S)} (hc : cellsOf around = outer) : t.Served around := by
  have root : ∀ {outer : List (Proof × Option CellId)} {p : Proof} {w w₁ : Workshop V S}
      {items : List (Term × Input V)} {parts : List (CallTree (Mark V S))}
      {answer : Except InvocationError V} {around : List (Proof × Mark V S)},
      cellsOf around = outer → Making handles table outer p w items parts w₁ →
      items.length = p.edges.length →
      (CallTree.node p ⟨(w.openCell p).1, some (p.call items w₁ answer)⟩ parts).Served around := by
    intro outer p w w₁ items parts answer around hc h hend
    have hmade := h.served (cellsOf_cons hc p ⟨_, some (p.call items w₁ answer)⟩)
    refine CallTree.served_node (fun call hcall => ?_) hmade.2
    obtain rfl := Option.some.inj hcall
    exact ⟨rfl, rfl, rfl, hend, hmade.1⟩
  induction h generalizing around with
  | made h hend ha => exact root hc h hend
  | refused h hend ha => exact root hc h hend
  | @cut outer p w items parts w₁ e q f t w₂ rest h he hq hfree hsub hrest hblank ih =>
    refine CallTree.served_node (fun call hcall => by cases hcall) fun t' ht' => ?_
    have hc' := cellsOf_cons hc p ⟨(w.openCell p).1, none⟩
    rcases List.mem_append.mp ht' with ht' | ht'
    · exact (h.served hc').2 t' ht'
    · rcases List.mem_cons.mp ht' with rfl | ht'
      · exact ih hc'
      · refine CallTree.served_blank fun n hn => ?_
        rw [hblank n (CallTree.mem_nodesOf.mpr ⟨t', ht', hn⟩)]

/-- Each rule called so far has answered with a value. -/
theorem Making.answered (h : Making handles table outer p w items parts w') :
    ∀ n ∈ CallTree.nodesOf parts, ∃ call v, n.2.call = some call ∧ call.answer = .ok v := by
  induction h with
  | start => simp [CallTree.nodesOf]
  | @hold outer p w items parts w₁ e id q c h he hl hq hg hc ih =>
    rwa [CallTree.nodesOf_held]
  | @make outer p w items parts w₁ e q items' parts' w₂ v caller h he hq hg hfree hsub hend ha ih
      ihsub =>
    intro n hn
    rcases CallTree.mem_nodesOf_node.mp hn with hn | hn | rfl
    · exact ih n hn
    · exact ihsub n hn
    · exact ⟨_, v, rfl, rfl⟩

theorem map_call_of_answered {ns : List (Proof × Mark V S)}
    (h : ∀ n ∈ ns, ∃ call v, n.2.call = some call ∧ call.answer = .ok v) :
    ns.map (·.2.call) = (ns.filterMap (·.2.call)).map some := by
  induction ns with
  | nil => rfl
  | cons n ns ih =>
    obtain ⟨call, v, hc, _⟩ := h n List.mem_cons_self
    simp [hc, ih fun n hn => h n (List.mem_cons_of_mem _ hn)]

theorem Making.ok_of_mem_calls (h : Making handles table outer p w items parts w')
    {call : HandleCall V S} (hc : call ∈ CallTree.callsOf parts) : ∃ v, call.answer = .ok v := by
  obtain ⟨n, hn, hcall⟩ := List.mem_filterMap.mp hc
  obtain ⟨call', v, hcall', hv⟩ := h.answered n hn
  obtain rfl := Option.some.inj (hcall.symm.trans hcall')
  exact ⟨v, hv⟩

/-- The calls are for the first nodes of the tree. All but the last are answered with values, and
the answer of the last is that of the construction. -/
theorem Ends.order (h : Ends handles table outer p w answer t w') : ∃ before last k,
    t.calls = before ++ [last] ∧
    t.nodes.map (·.2.call) = t.calls.map some ++ List.replicate k none ∧
    (∀ call ∈ before, ∃ v, call.answer = .ok v) ∧
    answer = last.answer.mapError (Failure.invocation last.inputs.goal last.inputs.rule) ∧
    ((∃ v, answer = .ok v) → k = 0) := by
  have root : ∀ {outer : List (Proof × Option CellId)} {p : Proof} {w w₁ : Workshop V S}
      {items : List (Term × Input V)} {parts : List (CallTree (Mark V S))} {cell : Option CellId}
      {last : HandleCall V S}, Making handles table outer p w items parts w₁ →
      (CallTree.node p ⟨cell, some last⟩ parts).calls = CallTree.callsOf parts ++ [last] ∧
      (CallTree.node p ⟨cell, some last⟩ parts).nodes.map (·.2.call) =
        (CallTree.node p ⟨cell, some last⟩ parts).calls.map some ++ List.replicate 0 none := by
    intro outer p w w₁ items parts cell last h
    have hcalls : (CallTree.node p ⟨cell, some last⟩ parts).calls =
        CallTree.callsOf parts ++ [last] := calls_node p ⟨cell, some last⟩ parts
    refine ⟨hcalls, ?_⟩
    rw [hcalls, CallTree.nodes, List.map_append, map_call_of_answered h.answered]
    simp [CallTree.callsOf]
  induction h with
  | made h hend ha =>
    exact ⟨_, _, 0, (root h).1, (root h).2, fun _ => h.ok_of_mem_calls, rfl, fun _ => rfl⟩
  | refused h hend ha =>
    exact ⟨_, _, 0, (root h).1, (root h).2, fun _ => h.ok_of_mem_calls, rfl, fun _ => rfl⟩
  | @cut outer p w items parts w₁ e q f t w₂ rest h he hq hfree hsub hrest hblank ih =>
    obtain ⟨before, last, k, hcalls, hnodes, hbefore, hanswer, _⟩ := ih
    have hall : (CallTree.node p ⟨(w.openCell p).1, none⟩ (parts ++ t :: rest)).calls =
        CallTree.callsOf parts ++ t.calls := by
      simp [calls_node, callsOf_append, callsOf_cons, callsOf_blank hblank]
    have hnone : (CallTree.nodesOf rest).map (·.2.call) =
        List.replicate (CallTree.nodesOf rest).length none := by
      refine List.map_eq_replicate_iff.mpr fun n hn => ?_
      rw [hblank n hn]
    refine ⟨CallTree.callsOf parts ++ before, last, k + ((CallTree.nodesOf rest).length + 1), ?_,
      ?_, ?_, hanswer, ?_⟩
    · rw [hall, hcalls, List.append_assoc]
    · rw [hall, CallTree.nodes, CallTree.nodesOf_append, CallTree.nodesOf]
      simp only [List.map_append, List.map_cons, List.map_nil, hnone, hnodes,
        map_call_of_answered h.answered, List.append_assoc, List.replicate_add, List.replicate_one]
      rfl
    · intro call hc
      rcases List.mem_append.mp hc with hc | hc
      · exact h.ok_of_mem_calls hc
      · exact hbefore call hc
    · rintro ⟨v, hv⟩
      cases hv

end Proof

/-- What a requirement for a goal is met with: the value of the part, there or deferred as the
requirement allows, or a value still to come. -/
def CallTree.Gives (deferrable : Bool) (goal : Term) : CallTree (Mark V S) → Input V → Prop
  | .node q m _, x => q.goal = goal ∧ ∃ sub v, m.call = some sub ∧ sub.answer = .ok v ∧
      x = if deferrable then .deferred (.known goal v) else .ready v
  | .held q, x => q.goal = goal ∧ deferrable = true ∧ ∃ cell, x = .deferred (.awaiting goal cell)

/-- The calling convention: the handle of a rule that matches the goal of a node gets the goal, and
for each requirement of the rule its instance, with what the part gives. -/
def HandleCall.Conforms (catalog : Catalog) (call : HandleCall V S) (p : Proof)
    (parts : List (CallTree (Mark V S))) : Prop :=
  ∃ r ∈ catalog.rules, ∃ subst, unify p.goal r.head = .ok subst ∧
    call.rule = r.id ∧ call.inputs.rule = r.name ∧ call.inputs.goal = p.goal ∧
    call.inputs.items.length = r.body.length ∧
    ∀ (i : Nat) req, r.body[i]? = some req → ∃ goal part x, subst.apply req.pattern = .ok goal ∧
      parts[i]? = some part ∧ call.inputs.subgoal? i = some goal ∧ call.inputs.input i = .ok x ∧
      part.Gives req.deferrable goal x

section

variable {catalog : Catalog} {table : ProofTable} {p : Proof} {call : HandleCall V S}
  {parts : List (CallTree (Mark V S))} {around : List (Proof × Mark V S)}

theorem HandleCall.Serves.conforms (h : call.Serves p around parts) (hs : table.Sound catalog)
    (hp : ∃ id, table.get? id = some p) {outer : List Proof}
    (hparts : CallTree.PartsUnfold table outer p.edges parts) :
    call.Conforms catalog p parts := by
  obtain ⟨id, hp⟩ := hp
  obtain ⟨r, subst, hfits⟩ := hs.fits id p hp
  refine ⟨r, hfits.mem, subst, hfits.unify, h.rule.trans hfits.id, h.name.trans hfits.name, h.goal,
    h.length.trans hfits.length, fun i req hreq => ?_⟩
  have hlt : i < p.edges.length := hfits.length ▸ (List.getElem?_eq_some_iff.mp hreq).1
  obtain ⟨e, he⟩ : ∃ e, p.edges[i]? = some e := ⟨_, List.getElem?_eq_getElem hlt⟩
  obtain ⟨part, hpart⟩ : ∃ part, parts[i]? = some part :=
    ⟨_, List.getElem?_eq_getElem (hparts.length_eq ▸ hlt)⟩
  obtain ⟨req', hreq', hmeets⟩ := hfits.meet i e he
  obtain rfl := Option.some.inj (hreq.symm.trans hreq')
  obtain ⟨x, hx, hfed⟩ := h.items i e part he hpart
  refine ⟨e.goal, part, x, hmeets.goal, hpart, by simp [Inputs.subgoal?, hx],
    by simp [Inputs.input, hx], ?_⟩
  cases hfed with
  | made hg hm ha =>
    refine ⟨hg, _, _, hm, ha, ?_⟩
    rw [Edge.given, hmeets.deferrable]
  | @held q m c hg hq hc =>
    refine ⟨hg, ?_, c, by rw [hg]⟩
    obtain ⟨_, _, ⟨⟨⟨id, hl⟩, _⟩, _⟩ | ⟨_, hu⟩⟩ := hparts.getElem? he hpart
    · exact hmeets.deferrable_of_back hl
    · exact hu.elim

end

variable {catalog : Catalog} {policy : Policy}

/-- A plan is invoked by calling the handles of the rules in the unfolding of its proof, one for
each node and after those of its parts, which come from left to right. Each is called as its rule
asks for, and the first one that fails is the last: its error is that of the invocation. -/
theorem calls_follow_unfolding {clauses : List (String × Clause)} {past : List Search}
    {s next : Prover V} {budget : Nat} {goal : Term} {plan : Plan}
    (hb : Catalog.build clauses = .ok catalog) (hs : Session catalog policy past s)
    (hc : s.compile budget goal = some (.ok plan, next)) (handles : RuleId → Handle V S)
    (w : Workshop V S) :
    ∃ answer w', ∃ t : CallTree (Mark V S), ∃ before last k, plan.invoke handles w = some (answer, w') ∧
      t.Unfolds plan.table [] plan.proof ∧
      (∀ t' : CallTree Unit, t'.Unfolds plan.table [] plan.proof →
        t'.nodes.map Prod.fst = t.nodes.map Prod.fst) ∧
      plan.calls handles w = before ++ [last] ∧
      t.nodes.map (·.2.call) = (plan.calls handles w).map some ++ List.replicate k none ∧
      (∀ call ∈ before, ∃ v, call.answer = .ok v) ∧
      answer = last.answer.mapError (Failure.invocation last.inputs.goal last.inputs.rule) ∧
      ((∃ v, answer = .ok v) → k = 0) ∧
      ∀ around p m parts call, CallTree.Within [] t around p m parts → m.call = some call →
        call.Conforms catalog p parts := by
  have hrun := Plan.runnable_of_compile hb hs hc
  obtain ⟨answer, w', t, hinvoke, hends, hcalls⟩ := hrun.ends handles w
  obtain ⟨before, last, k, hlast, hnodes, hbefore, hanswer, hk⟩ := hends.order
  have hunfolds : t.Unfolds plan.table [] plan.proof := hends.unfolds
  refine ⟨answer, w', t, before, last, k, hinvoke, hunfolds, fun t' ht' => ht'.unique hunfolds,
    hcalls.trans hlast, ?_, hbefore, hanswer, hk, ?_⟩
  · rw [hcalls, hnodes]
  · intro around p m parts call hw hcall
    obtain ⟨hrec, outer, hparts⟩ := hunfolds.within ⟨_, hrun.recorded⟩ hw
    exact (hends.served rfl around p m parts call hw hcall).conforms hrun.sound hrec hparts

theorem knot_calls_follow_unfolding : ∃ plan next,
    (Prover.start knotCatalog Policy.default : Prover Nat).compile 9 (.const "Edge") =
      some (.ok plan, next) ∧ ∃ t : CallTree (Mark Nat Nat), t.Unfolds plan.table [] plan.proof ∧
      ∃ k, t.nodes.map (·.2.call) =
        (plan.calls countInputs ⟨#[], 0⟩).map some ++ List.replicate k none := by
  obtain ⟨plan, next, hc⟩ := knot_compiles
  obtain ⟨_, _, t, _, _, k, _, hunfolds, _, _, hnodes, _⟩ :=
    calls_follow_unfolding build_knot .start hc countInputs ⟨#[], 0⟩
  exact ⟨plan, next, hc, t, hunfolds, k, hnodes⟩

end Clausal
