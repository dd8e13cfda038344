import Clausal.Proofs.CallTree

namespace Clausal

variable {V S : Type}

/-- One call of the handle of a rule: what it was given, the workshop it found, and its answer. -/
structure HandleCall (V S : Type) where
  rule : RuleId
  inputs : Inputs V
  found : Workshop V S
  answer : Except InvocationError V

/-- Handles that do the same as others, and note each call besides. -/
def noting (handles : RuleId → Handle V S) (rule : RuleId) :
    Handle V (S × List (HandleCall V S)) :=
  fun inputs cells caller =>
    let answer := handles rule inputs cells caller.1
    (answer.1, answer.2, caller.2 ++ [⟨rule, inputs, ⟨cells, caller.1⟩, answer.1⟩])

/-- A workshop without the notes. -/
def Workshop.plain (w : Workshop V (S × List (HandleCall V S))) : Workshop V S :=
  ⟨w.cells, w.caller.1⟩

def Built.plain {α : Type} (b : Built V (S × List (HandleCall V S)) α) : Built V S α :=
  (b.1, b.2.plain)

/-- The calls of handles in an invocation, in the order in which they are made. -/
def Plan.calls (plan : Plan) (handles : RuleId → Handle V S) (w : Workshop V S) :
    List (HandleCall V S) :=
  match plan.invoke (noting handles) ⟨w.cells, w.caller, []⟩ with
  | some (_, w') => w'.caller.2
  | none => []

/-- What is left of the construction of a node: its cell, and the call of its rule if it came to
that. -/
structure Mark (V S : Type) where
  cell : Option CellId
  call : Option (HandleCall V S)

/-- The calls made for the nodes of a tree. -/
def CallTree.calls (t : CallTree (Mark V S)) : List (HandleCall V S) :=
  t.nodes.filterMap (·.2.call)

/-- The calls made for the nodes of some trees. -/
def CallTree.callsOf (ts : List (CallTree (Mark V S))) : List (HandleCall V S) :=
  (CallTree.nodesOf ts).filterMap (·.2.call)

/-- What a rule is given for an edge whose value is built. -/
def Edge.given (e : Edge) (v : V) : Input V :=
  if e.deferrable then .deferred (.known e.goal v) else .ready v

namespace Proof

/-- The call of the rule of a proof with the inputs made for it. -/
def call (p : Proof) (items : List (Term × Input V)) (w : Workshop V S)
    (answer : Except InvocationError V) : HandleCall V S :=
  ⟨p.rule, ⟨p.goal, p.name, items⟩, w, answer⟩

/-- The construction of a proof amid others has made its first inputs, and the parts that they come
from. -/
inductive Making (handles : RuleId → Handle V S) (table : ProofTable) :
    List (Proof × Option CellId) → Proof → Workshop V S → List (Term × Input V) →
      List (CallTree (Mark V S)) → Workshop V S → Prop
  | start {outer p w} : Making handles table outer p w [] [] (w.openCell p).2
  | hold {outer p w items parts w₁ e id q c} (h : Making handles table outer p w items parts w₁)
      (he : p.edges[items.length]? = some e) (hl : e.link = .back id) (hq : table.get? id = some q)
      (hg : q.goal = e.goal)
      (hc : ((p, (w.openCell p).1) :: outer).lookup q = some (some c)) :
      Making handles table outer p w (items ++ [(e.goal, .deferred (.awaiting q.goal c))])
        (parts ++ [.held q]) w₁
  | make {outer p w items parts w₁ e q items' parts' w₂ v caller}
      (h : Making handles table outer p w items parts w₁) (he : p.edges[items.length]? = some e)
      (hq : table.get? e.link.target = some q) (hg : q.goal = e.goal)
      (hfree : ∀ id, e.link = .back id → ((p, (w.openCell p).1) :: outer).lookup q = none)
      (hsub : Making handles table ((p, (w.openCell p).1) :: outer) q w₁ items' parts' w₂)
      (hend : items'.length = q.edges.length)
      (ha : handles q.rule ⟨q.goal, q.name, items'⟩ w₂.cells w₂.caller = (.ok v, caller)) :
      Making handles table outer p w (items ++ [(e.goal, e.given v)])
        (parts ++ [.node q ⟨(w₁.openCell q).1, some (q.call items' w₂ (.ok v))⟩ parts'])
        ({ w₂ with caller := caller }.fillCell (w₁.openCell q).1 v)

/-- A construction comes to an end: with a value, at a call that is refused, or at a part that comes
to no value itself. -/
inductive Ends (handles : RuleId → Handle V S) (table : ProofTable) :
    List (Proof × Option CellId) → Proof → Workshop V S → Except Failure V →
      CallTree (Mark V S) → Workshop V S → Prop
  | made {outer p w items parts w₁ v caller} (h : Making handles table outer p w items parts w₁)
      (hend : items.length = p.edges.length)
      (ha : handles p.rule ⟨p.goal, p.name, items⟩ w₁.cells w₁.caller = (.ok v, caller)) :
      Ends handles table outer p w (.ok v)
        (.node p ⟨(w.openCell p).1, some (p.call items w₁ (.ok v))⟩ parts)
        ({ w₁ with caller := caller }.fillCell (w.openCell p).1 v)
  | refused {outer p w items parts w₁ source caller}
      (h : Making handles table outer p w items parts w₁) (hend : items.length = p.edges.length)
      (ha : handles p.rule ⟨p.goal, p.name, items⟩ w₁.cells w₁.caller = (.error source, caller)) :
      Ends handles table outer p w (.error (p.invocationFailure source))
        (.node p ⟨(w.openCell p).1, some (p.call items w₁ (.error source))⟩ parts)
        { w₁ with caller := caller }
  | cut {outer p w items parts w₁ e q f t w₂ rest}
      (h : Making handles table outer p w items parts w₁) (he : p.edges[items.length]? = some e)
      (hq : table.get? e.link.target = some q)
      (hfree : ∀ id, e.link = .back id → ((p, (w.openCell p).1) :: outer).lookup q = none)
      (hsub : Ends handles table ((p, (w.openCell p).1) :: outer) q w₁ (.error f) t w₂)
      (hrest : CallTree.PartsUnfold table (p :: outer.map Prod.fst)
        (p.edges.drop (items.length + 1)) rest)
      (hblank : ∀ n ∈ CallTree.nodesOf rest, n.2 = ⟨none, none⟩) :
      Ends handles table outer p w (.error f) (.node p ⟨(w.openCell p).1, none⟩ (parts ++ t :: rest))
        w₂

theorem Making.length_le {handles : RuleId → Handle V S} {table : ProofTable}
    {outer : List (Proof × Option CellId)} {p : Proof} {w w' : Workshop V S}
    {items : List (Term × Input V)} {parts : List (CallTree (Mark V S))}
    (h : Making handles table outer p w items parts w') : items.length ≤ p.edges.length := by
  have next : ∀ {items : List (Term × Input V)} {e : Edge} {x : Term × Input V},
      p.edges[items.length]? = some e → (items ++ [x]).length ≤ p.edges.length := by
    intro items e x he
    have hlt := (List.getElem?_eq_some_iff.mp he).1
    simp
    omega
  cases h with
  | start => simp
  | hold h he hl hq hg hc => exact next he
  | make h he hq hg hfree hsub hend ha => exact next he

/-- The cells that are open are those of the recursive proofs under construction. -/
def Opens (table : ProofTable) (opened : Opened) (outer : List (Proof × Option CellId)) : Prop :=
  ∀ q, table.get? q.id = some q → q.recursive = true →
    outer.lookup q = (opened.lookup q.id).map some

section

variable {table : ProofTable} {opened : Opened} {outer : List (Proof × Option CellId)} {p q : Proof}
  {e : Edge}

theorem Opens.opening (h : Opens table opened outer) (hp : table.get? p.id = some p)
    (w : Workshop V S) : Opens table (p.opening w opened) ((p, (w.openCell p).1) :: outer) := by
  intro q hq hr
  by_cases heq : q = p
  · subst heq
    simp [Proof.opening, Workshop.openCell, hr]
  · have hid : q.id ≠ p.id := by
      intro hid
      rw [hid, hp] at hq
      exact heq (Option.some.inj hq).symm
    have hrest : (p.opening w opened).lookup q.id = opened.lookup q.id := by
      have hne : (q.id == p.id) = false := by simpa using hid
      unfold Proof.opening Workshop.openCell
      split <;> simp [List.lookup_cons, hne]
    have hne : (q == p) = false := by simpa using heq
    rw [hrest, List.lookup_cons, hne]
    exact h q hq hr

/-- A back link to a proof that is not under construction finds no open cell. -/
theorem Opens.lookup_none (h : Opens table opened outer) (hq : table.get? q.id = some q)
    (hr : q.recursive = true) (hn : q ∉ outer.map Prod.fst) : opened.lookup q.id = none := by
  have hnone : outer.lookup q = none := by
    rw [List.lookup_eq_none_iff]
    intro o ho
    have hne : q ≠ o.1 := fun heq => hn (heq ▸ List.mem_map_of_mem ho)
    simpa using hne
  rw [h q hq hr] at hnone
  simpa using hnone

end

section

variable {catalog : Catalog} {table : ProofTable} {opened : Opened}
  {outer : List (Proof × Option CellId)} {p q : Proof} {e : Edge} {α : Type} {blank : α}

theorem exists_partsUnfold {outer : List Proof} {es : List Edge}
    (h : ∀ e ∈ es, ∃ t : CallTree α, t.PartUnfolds table outer e ∧ ∀ n ∈ t.nodes, n.2 = blank) :
    ∃ ts : List (CallTree α), CallTree.PartsUnfold table outer es ts ∧
      ∀ n ∈ CallTree.nodesOf ts, n.2 = blank := by
  induction es with
  | nil => exact ⟨[], trivial, by simp [CallTree.nodesOf]⟩
  | cons e es ih =>
    obtain ⟨t, ht, hblank⟩ := h e List.mem_cons_self
    obtain ⟨ts, hts, hrest⟩ := ih fun e he => h e (List.mem_cons_of_mem _ he)
    refine ⟨t :: ts, ⟨ht, hts⟩, fun n hn => ?_⟩
    rcases List.mem_append.mp hn with hn | hn
    · exact hblank n hn
    · exact hrest n hn

/-- The edge of a proof has a part once the proof that it leads to unfolds. -/
theorem exists_part (hs : table.Sound catalog) (ho : Opens table opened outer)
    (hp : p.Whole table) (hg : p.Guarded table) (he : e ∈ p.edges)
    (sub : ∀ q, table.get? e.link.target = some q → table.get? q.id = some q →
      (∀ id, e.link = .back id → opened.lookup q.id = none) →
      ∃ t : CallTree α, t.Unfolds table (outer.map Prod.fst) q ∧ ∀ n ∈ t.nodes, n.2 = blank) :
    ∃ t : CallTree α, t.PartUnfolds table (outer.map Prod.fst) e ∧ ∀ n ∈ t.nodes, n.2 = blank := by
  obtain ⟨q, hq, _⟩ := hp.edge he
  have hrec : table.get? q.id = some q := by rwa [hs.id _ q hq]
  by_cases hheld : e.Held (outer.map Prod.fst) q
  · exact ⟨.held q, ⟨q, hq, .inl ⟨hheld, rfl⟩⟩, by simp [CallTree.nodes]⟩
  · obtain ⟨t, ht, hblank⟩ := sub q hq hrec fun id hl =>
      ho.lookup_none hrec (hg p .refl e he id hl q (by rwa [hl] at hq)) fun hmem => hheld ⟨⟨id, hl⟩, hmem⟩
    exact ⟨t, ⟨q, hq, .inr ⟨hheld, ht⟩⟩, hblank⟩

/-- Whatever can be built unfolds to a tree. -/
theorem exists_unfolds (hs : table.Sound catalog) (blank : α) {n : Nat}
    (ho : Opens table opened outer) (hrec : table.get? p.id = some p) (hp : p.Whole table)
    (hg : p.Guarded table) (hn : table.need opened p ≤ n) :
    ∃ t : CallTree α, t.Unfolds table (outer.map Prod.fst) p ∧ ∀ n ∈ t.nodes, n.2 = blank := by
  induction n generalizing p opened outer with
  | zero => simp [ProofTable.need] at hn
  | succ n ih =>
    have hleft : (table.unopened (p.opening (⟨#[], ()⟩ : Workshop Unit Unit) opened)).card *
        (table.size + 1) + table.height p ≤ n := by
      rw [unopened_opening]
      unfold ProofTable.need at hn
      omega
    have ho' := ho.opening hrec (⟨#[], ()⟩ : Workshop Unit Unit)
    have hparts : ∀ e ∈ p.edges, ∃ t : CallTree α,
        t.PartUnfolds table (p :: outer.map Prod.fst) e ∧ ∀ n ∈ t.nodes, n.2 = blank := by
      intro e he
      refine exists_part hs ho' hp hg he fun q hq hrecq hfree => ?_
      obtain ⟨q', hq', _, hw⟩ := hp.edge he
      obtain rfl := Option.some.inj (hq.symm.trans hq')
      exact ih ho' hrecq hw (hg.edge he hq) (need_le_of_edge hs hg he hq hleft hfree)
    obtain ⟨parts, hparts, hblank⟩ := exists_partsUnfold hparts
    refine ⟨.node p blank parts, ⟨rfl, hparts⟩, fun n hn => ?_⟩
    rcases List.mem_append.mp hn with hn | hn
    · exact hblank n hn
    · rw [List.mem_singleton.mp hn]

end

section

variable {α : Type} {handles : RuleId → Handle V S} {table : ProofTable} {p : Proof} {e : Edge}
  {opened : Opened} {n k : Nat} {es : List Edge} {w w' : Workshop V (S × List (HandleCall V S))}

theorem plain_openCell (p : Proof) (w : Workshop V (S × List (HandleCall V S))) :
    (w.openCell p).1 = (w.plain.openCell p).1 ∧ (w.openCell p).2.plain = (w.plain.openCell p).2 ∧
      (w.openCell p).2.caller = w.caller := by
  unfold Workshop.openCell
  split <;> exact ⟨rfl, rfl, rfl⟩

theorem plain_fillCell (w : Workshop V (S × List (HandleCall V S))) (cell : Option CellId) (v : V) :
    (w.fillCell cell v).plain = w.plain.fillCell cell v ∧ (w.fillCell cell v).caller = w.caller := by
  cases cell <;> exact ⟨rfl, rfl⟩

theorem opening_plain (p : Proof) (w : Workshop V (S × List (HandleCall V S))) (opened : Opened) :
    p.opening w opened = p.opening w.plain opened := by
  rw [opening, (plain_openCell p w).1]
  rfl

/-- Inputs come out the same without the notes if each of them does. -/
theorem inputs_plain
    {input : Nat → Edge → Workshop V (S × List (HandleCall V S)) →
      Option (Built V (S × List (HandleCall V S)) (Input V))}
    {input' : Nat → Edge → Workshop V S → Option (Built V S (Input V))}
    (h : ∀ i e w, (input i e w).map Built.plain = input' i e w.plain) :
    (inputs input k es w).map Built.plain = inputs input' k es w.plain := by
  induction es generalizing k w with
  | nil => rfl
  | cons e es ih =>
    unfold inputs
    rw [← h]
    cases input k e w with
    | none => rfl
    | some first =>
      obtain ⟨answer, w₁⟩ := first
      cases answer with
      | error f => rfl
      | ok x =>
        dsimp only [Option.map_some, Built.plain]
        rw [← ih]
        cases inputs input (k + 1) es w₁ with
        | none => rfl
        | some rest =>
          obtain ⟨answers, w₂⟩ := rest
          cases answers <;> rfl

/-- Noting the calls changes nothing else. -/
theorem build_plain : (p.build (noting handles) table n opened w).map Built.plain =
    p.build handles table n opened w.plain := by
  induction n generalizing p opened w with
  | zero => rfl
  | succ n ih =>
    have same : ∀ opened i e w, (p.input (build (noting handles) table n opened) table opened i e
        w).map Built.plain =
        p.input (build handles table n opened) table opened i e w.plain := by
      intro opened i e w
      unfold input
      cases e.link with
      | built id =>
        dsimp only
        cases table.get? id with
        | none => rfl
        | some sub =>
          dsimp only
          rw [← ih]
          cases sub.build (noting handles) table n opened w with
          | none => rfl
          | some first =>
            obtain ⟨answer, w₁⟩ := first
            cases answer <;> rfl
      | back id =>
        dsimp only
        cases table.get? id with
        | none => rfl
        | some target =>
          dsimp only
          cases opened.lookup target.id with
          | some cell => rfl
          | none =>
            dsimp only
            rw [← ih]
            cases target.build (noting handles) table n opened w with
            | none => rfl
            | some first =>
              obtain ⟨answer, w₁⟩ := first
              cases answer <;> rfl
    rw [build_succ, build_succ, opening_plain, (plain_openCell p w).1,
      ← (plain_openCell p w).2.1, ← inputs_plain (same _)]
    cases inputs (p.input (build (noting handles) table n (p.opening w.plain opened)) table
        (p.opening w.plain opened)) 0 p.edges (w.openCell p).2 with
    | none => rfl
    | some made =>
      obtain ⟨answer, w₁⟩ := made
      cases answer with
      | error f => rfl
      | ok items =>
        dsimp only [Option.map_some, Built.plain, Workshop.plain, noting]
        cases hh : handles p.rule ⟨p.goal, p.name, items⟩ w₁.cells w₁.caller.1 with
        | mk answer caller =>
          cases answer with
          | error source => rfl
          | ok v =>
            simp only [Option.map_some, Built.plain, (plain_fillCell _ _ v).1]
            rfl

end

section

variable {catalog : Catalog} {handles : RuleId → Handle V S} {table : ProofTable} {p : Proof}
  {e : Edge} {opened : Opened} {outer : List (Proof × Option CellId)} {n k : Nat} {es : List Edge}
  {w₀ : Workshop V S} {w w' : Workshop V (S × List (HandleCall V S))}
  {log : List (HandleCall V S)} {items : List (Term × Input V)} {parts : List (CallTree (Mark V S))}

theorem calls_node (p : Proof) (m : Mark V S) (parts : List (CallTree (Mark V S))) :
    (CallTree.node p m parts).calls = CallTree.callsOf parts ++ m.call.toList := by
  cases hm : m.call <;> simp [CallTree.calls, CallTree.callsOf, CallTree.nodes, hm]

theorem callsOf_append (ts us : List (CallTree (Mark V S))) :
    CallTree.callsOf (ts ++ us) = CallTree.callsOf ts ++ CallTree.callsOf us := by
  simp [CallTree.callsOf, CallTree.nodesOf_append]

@[simp] theorem callsOf_held (ts : List (CallTree (Mark V S))) (q : Proof) :
    CallTree.callsOf (ts ++ [.held q]) = CallTree.callsOf ts := by
  simp [CallTree.callsOf]

theorem callsOf_cons (t : CallTree (Mark V S)) (ts : List (CallTree (Mark V S))) :
    CallTree.callsOf (t :: ts) = t.calls ++ CallTree.callsOf ts := by
  simp [CallTree.callsOf, CallTree.calls, CallTree.nodesOf]

theorem callsOf_blank {ts : List (CallTree (Mark V S))}
    (h : ∀ n ∈ CallTree.nodesOf ts, n.2 = ⟨none, none⟩) : CallTree.callsOf ts = [] := by
  rw [CallTree.callsOf, List.filterMap_eq_nil_iff]
  intro n hn
  rw [h n hn]

/-- A back link is for a requirement that is deferrable. -/
theorem deferrable_of_back (hs : table.Sound catalog) (hrec : table.get? p.id = some p)
    (he : e ∈ p.edges) {id : ProofId} (hl : e.link = .back id) : e.deferrable = true := by
  obtain ⟨r, subst, hfits⟩ := hs.fits _ p hrec
  obtain ⟨i, hi⟩ := List.mem_iff_getElem?.mp he
  obtain ⟨req, _, hmeets⟩ := hfits.meet i e hi
  rw [hmeets.deferrable]
  exact hmeets.deferrable_of_back hl

/-- A way to build that carries constructions through to an end, and notes the calls made for
them. -/
def Carries (handles : RuleId → Handle V S) (table : ProofTable)
    (outer : List (Proof × Option CellId)) (q : Proof)
    (build : Proof → Workshop V (S × List (HandleCall V S)) →
      Option (Built V (S × List (HandleCall V S)) V)) : Prop :=
  ∀ w answer w', build q w = some (answer, w') →
    ∃ t, Ends handles table outer q w.plain answer t w'.plain ∧ w'.caller.2 = w.caller.2 ++ t.calls

/-- The construction of `p` has made `items` from `parts`, with their calls noted after `log`. -/
structure Underway (handles : RuleId → Handle V S) (table : ProofTable)
    (outer : List (Proof × Option CellId)) (p : Proof) (w₀ : Workshop V S)
    (log : List (HandleCall V S)) (items : List (Term × Input V))
    (parts : List (CallTree (Mark V S))) (w : Workshop V (S × List (HandleCall V S))) : Prop where
  making : Making handles table outer p w₀ items parts w.plain
  noted : w.caller.2 = log ++ CallTree.callsOf parts

/-- The construction of `p` has come to an end, with its calls noted after `log`. -/
def Over (handles : RuleId → Handle V S) (table : ProofTable)
    (outer : List (Proof × Option CellId)) (p : Proof) (w₀ : Workshop V S)
    (log : List (HandleCall V S)) (answer : Except Failure V)
    (w : Workshop V (S × List (HandleCall V S))) : Prop :=
  ∃ t, Ends handles table outer p w₀ answer t w.plain ∧ w.caller.2 = log ++ t.calls

section

variable {build : Proof → Workshop V (S × List (HandleCall V S)) →
    Option (Built V (S × List (HandleCall V S)) V)} {q : Proof}

theorem Underway.built (h : Underway handles table outer p w₀ log items parts w)
    (he : p.edges[items.length]? = some e) (hq : table.get? e.link.target = some q)
    (hg : q.goal = e.goal)
    (hfree : ∀ id, e.link = .back id → ((p, (w₀.openCell p).1) :: outer).lookup q = none)
    (sub : Carries handles table ((p, (w₀.openCell p).1) :: outer) q build) {v : V}
    (hb : build q w = some (.ok v, w')) :
    ∃ t, Underway handles table outer p w₀ log (items ++ [(e.goal, e.given v)]) (parts ++ [t]) w' := by
  obtain ⟨t, hends, hnoted⟩ := sub w _ w' hb
  refine ⟨t, ?_, ?_⟩
  · generalize w'.plain = w'' at hends ⊢
    cases hends with
    | made hsub hend ha => exact h.making.make he hq hg hfree hsub hend ha
  · rw [hnoted, h.noted, callsOf_append, callsOf_cons]
    simp [CallTree.callsOf, CallTree.nodesOf]

theorem Underway.failed (h : Underway handles table outer p w₀ log items parts w)
    (he : p.edges[items.length]? = some e) (hq : table.get? e.link.target = some q)
    (hfree : ∀ id, e.link = .back id → ((p, (w₀.openCell p).1) :: outer).lookup q = none)
    (sub : Carries handles table ((p, (w₀.openCell p).1) :: outer) q build)
    {rest : List (CallTree (Mark V S))}
    (hrest : CallTree.PartsUnfold table (p :: outer.map Prod.fst)
      (p.edges.drop (items.length + 1)) rest)
    (hblank : ∀ n ∈ CallTree.nodesOf rest, n.2 = ⟨none, none⟩) {f : Failure}
    (hb : build q w = some (.error f, w')) :
    Over handles table outer p w₀ log (.error f) w' := by
  obtain ⟨t, hends, hnoted⟩ := sub w _ w' hb
  refine ⟨_, .cut h.making he hq hfree hends hrest hblank, ?_⟩
  rw [hnoted, h.noted, calls_node, callsOf_append, callsOf_cons, callsOf_blank hblank]
  simp

/-- One more input is made, or the construction comes to an end for want of it. -/
theorem Underway.input (hs : table.Sound catalog) (hp : p.Whole table) (hg : p.Guarded table)
    (hrec : table.get? p.id = some p) (ho : Opens table opened ((p, (w₀.openCell p).1) :: outer))
    (h : Underway handles table outer p w₀ log items parts w)
    (he : p.edges[items.length]? = some e)
    (sub : ∀ q, table.get? e.link.target = some q →
      Carries handles table ((p, (w₀.openCell p).1) :: outer) q build)
    {rest : List (CallTree (Mark V S))}
    (hrest : CallTree.PartsUnfold table (p :: outer.map Prod.fst)
      (p.edges.drop (items.length + 1)) rest)
    (hblank : ∀ n ∈ CallTree.nodesOf rest, n.2 = ⟨none, none⟩) {answer : Except Failure (Input V)}
    (hi : p.input build table opened k e w = some (answer, w')) :
    (∃ x t, answer = .ok x ∧
      Underway handles table outer p w₀ log (items ++ [(e.goal, x)]) (parts ++ [t]) w') ∨
    ∃ f, answer = .error f ∧ Over handles table outer p w₀ log (.error f) w' := by
  have hmem : e ∈ p.edges := List.mem_of_getElem? he
  obtain ⟨q, hq, hgoal, _⟩ := hp.edge hmem
  have hrecq : table.get? q.id = some q := by rwa [hs.id _ q hq]
  unfold Proof.input at hi
  cases hl : e.link with
  | built id =>
    have hq' : table.get? id = some q := by rwa [hl] at hq
    have hfree : ∀ id, e.link = .back id → ((p, (w₀.openCell p).1) :: outer).lookup q = none := by
      intro id' hl'
      cases hl.symm.trans hl'
    simp only [hl, hq'] at hi
    split at hi
    · cases hi
    next f w₁ hb =>
      cases hi
      exact .inr ⟨f, rfl, h.failed he hq hfree (sub q hq) hrest hblank hb⟩
    next v w₁ hb =>
      cases hi
      obtain ⟨t, ht⟩ := h.built he hq hgoal hfree (sub q hq) hb
      exact .inl ⟨_, t, rfl, ht⟩
  | back id =>
    have hq' : table.get? id = some q := by rwa [hl] at hq
    have hopen := ho q hrecq (hg p .refl e hmem id hl q hq')
    simp only [hl, hq'] at hi
    cases hc : opened.lookup q.id with
    | some c =>
      simp only [hc] at hi
      cases hi
      rw [hc] at hopen
      refine .inl ⟨_, .held q, rfl, h.making.hold he hl hq' hgoal hopen, ?_⟩
      rw [h.noted, callsOf_held]
    | none =>
      rw [hc] at hopen
      simp only [hc] at hi
      split at hi
      · cases hi
      next f w₁ hb =>
        cases hi
        exact .inr ⟨f, rfl, h.failed he hq (fun _ _ => hopen) (sub q hq) hrest hblank hb⟩
      next v w₁ hb =>
        cases hi
        obtain ⟨t, ht⟩ := h.built he hq hgoal (fun _ _ => hopen) (sub q hq) hb
        refine .inl ⟨_, t, rfl, ?_⟩
        rwa [Edge.given, if_pos (deferrable_of_back hs hrec hmem hl)] at ht

/-- The inputs are made one after the other, or the construction comes to an end before. -/
theorem Underway.inputs (hs : table.Sound catalog) (hp : p.Whole table) (hg : p.Guarded table)
    (hrec : table.get? p.id = some p) (ho : Opens table opened ((p, (w₀.openCell p).1) :: outer))
    (sub : ∀ e ∈ p.edges, ∀ q, table.get? e.link.target = some q →
      Carries handles table ((p, (w₀.openCell p).1) :: outer) q build)
    (hparts : ∀ e ∈ p.edges, ∃ t : CallTree (Mark V S),
      t.PartUnfolds table (p :: outer.map Prod.fst) e ∧ ∀ n ∈ t.nodes, n.2 = ⟨none, none⟩)
    (h : Underway handles table outer p w₀ log items parts w)
    (hes : p.edges.drop items.length = es) {answer : Except Failure (List (Term × Input V))}
    (hi : Proof.inputs (p.input build table opened) k es w = some (answer, w')) :
    (∃ rest parts', answer = .ok rest ∧ (items ++ rest).length = p.edges.length ∧
      Underway handles table outer p w₀ log (items ++ rest) parts' w') ∨
    ∃ f, answer = .error f ∧ Over handles table outer p w₀ log (.error f) w' := by
  induction es generalizing k w w' items parts answer with
  | nil =>
    cases hi
    have hle : p.edges.length ≤ items.length := List.drop_eq_nil_iff.mp hes
    have hge : items.length ≤ p.edges.length := h.making.length_le
    exact .inl ⟨[], parts, rfl, by simp; omega, by simpa using h⟩
  | cons e es ih =>
    have he : p.edges[items.length]? = some e := by
      rw [← List.head?_drop, hes]
      rfl
    have hdrop : p.edges.drop (items.length + 1) = es := by
      rw [← List.tail_drop, hes]
      rfl
    obtain ⟨rest, hrest, hblank⟩ := exists_partsUnfold fun e he =>
      hparts e (List.mem_of_mem_drop (i := items.length + 1) he)
    unfold Proof.inputs at hi
    cases hx : p.input build table opened k e w with
    | none => simp [hx] at hi
    | some first =>
      obtain ⟨answer₁, w₁⟩ := first
      rw [hx] at hi
      rcases h.input hs hp hg hrec ho he (sub e (List.mem_of_getElem? he)) hrest hblank hx with
        ⟨x, t, rfl, hnext⟩ | ⟨f, rfl, hover⟩
      · dsimp only at hi
        cases htail : Proof.inputs (p.input build table opened) (k + 1) es w₁ with
        | none => simp [htail] at hi
        | some tail =>
          obtain ⟨answer₂, w₂⟩ := tail
          rw [htail] at hi
          rcases ih hnext (by simpa using hdrop) htail with
            ⟨rest, parts', rfl, hlen, hdone⟩ | ⟨f, rfl, hover⟩
          · cases hi
            rw [List.append_assoc] at hlen hdone
            exact .inl ⟨_, parts', rfl, hlen, hdone⟩
          · cases hi
            exact .inr ⟨f, rfl, hover⟩
      · cases hi
        exact .inr ⟨f, rfl, hover⟩

end

/-- Building carries a construction through to an end. -/
theorem build_over (hs : table.Sound catalog) (ho : Opens table opened outer)
    (hrec : table.get? p.id = some p) (hp : p.Whole table) (hg : p.Guarded table)
    {answer : Except Failure V}
    (h : p.build (noting handles) table n opened w = some (answer, w')) :
    Over handles table outer p w.plain w.caller.2 answer w' := by
  induction n generalizing p opened outer w answer w' with
  | zero => simp [build] at h
  | succ n ih =>
    have ho' := ho.opening hrec w
    rw [(plain_openCell p w).1] at ho'
    have sub : ∀ e ∈ p.edges, ∀ q, table.get? e.link.target = some q →
        Carries handles table ((p, (w.plain.openCell p).1) :: outer) q
          (build (noting handles) table n (p.opening w opened)) := by
      intro e he q hq w₁ answer₁ w₂ hb
      obtain ⟨q', hq', _, hw⟩ := hp.edge he
      obtain rfl := Option.some.inj (hq.symm.trans hq')
      exact ih ho' (by rwa [hs.id _ q hq]) hw (hg.edge he hq) hb
    have hparts : ∀ e ∈ p.edges, ∃ t : CallTree (Mark V S),
        t.PartUnfolds table (p :: outer.map Prod.fst) e ∧ ∀ n ∈ t.nodes, n.2 = ⟨none, none⟩ := by
      intro e he
      refine exists_part hs ho' hp hg he fun q hq hrecq _ => ?_
      obtain ⟨q', hq', _, hw⟩ := hp.edge he
      obtain rfl := Option.some.inj (hq.symm.trans hq')
      exact exists_unfolds hs _ ho' hrecq hw (hg.edge he hq) le_rfl
    have hstart : Underway handles table outer p w.plain w.caller.2 [] [] (w.openCell p).2 :=
      ⟨(plain_openCell p w).2.1 ▸ .start,
        by simp [(plain_openCell p w).2.2, CallTree.callsOf, CallTree.nodesOf]⟩
    rw [build_succ] at h
    cases hi : inputs (p.input (build (noting handles) table n (p.opening w opened)) table
        (p.opening w opened)) 0 p.edges (w.openCell p).2 with
    | none => simp [hi] at h
    | some made =>
      obtain ⟨answer₁, w₁⟩ := made
      rw [hi] at h
      rcases hstart.inputs hs hp hg hrec ho' sub hparts rfl hi with
        ⟨items, parts, rfl, hlen, hmade⟩ | ⟨f, rfl, hover⟩
      · dsimp only [noting] at h
        cases hh : handles p.rule ⟨p.goal, p.name, items⟩ w₁.cells w₁.caller.1 with
        | mk answer caller =>
          simp only [hh] at h
          cases answer with
          | error source =>
            cases h
            refine ⟨_, .refused hmade.making hlen hh, ?_⟩
            simp [hmade.noted, calls_node, call, Workshop.plain]
          | ok v =>
            cases h
            unfold Over
            rw [(plain_fillCell _ _ v).1, (plain_fillCell _ _ v).2, (plain_openCell p w).1]
            refine ⟨_, .made hmade.making hlen hh, ?_⟩
            simp [hmade.noted, calls_node, call, Workshop.plain]
      · cases h
        exact hover

end

end Proof

namespace Plan.Runnable

variable {catalog : Catalog} {plan : Plan}

/-- An invocation is the construction of the plan's proof, and comes to an end. -/
theorem ends (h : plan.Runnable catalog) (handles : RuleId → Handle V S) (w : Workshop V S) :
    ∃ answer w' t, plan.invoke handles w = some (answer, w') ∧
      Proof.Ends handles plan.table [] plan.proof w answer t w' ∧ plan.calls handles w = t.calls := by
  obtain ⟨⟨answer, w'⟩, hnoted, _⟩ := h.build (noting handles) ⟨w.cells, w.caller, []⟩
  have hplain : plan.invoke handles w = some (answer, w'.plain) := by
    have hp : (plan.invoke (noting handles) ⟨w.cells, w.caller, []⟩).map Built.plain =
        plan.invoke handles w := Proof.build_plain
    rw [← hp, hnoted]
    rfl
  have hopen : Proof.Opens plan.table [] [] := fun _ _ _ => rfl
  obtain ⟨t, hends, hcalls⟩ := Proof.build_over h.sound hopen h.recorded h.whole h.guarded hnoted
  refine ⟨answer, w'.plain, t, hplain, hends, ?_⟩
  rw [calls, hnoted]
  simpa using hcalls

end Plan.Runnable

end Clausal
