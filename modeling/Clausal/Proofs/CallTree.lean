import Clausal.Proofs.Building

namespace Clausal

/-- The tree that a proof unfolds to, with a mark at each node. A back link to a proof under
construction is a leaf. -/
inductive CallTree (α : Type) where
  | node (proof : Proof) (mark : α) (parts : List (CallTree α))
  | held (target : Proof)

/-- A back link to one of the proofs under construction. -/
def Edge.Held (outer : List Proof) (e : Edge) (q : Proof) : Prop :=
  (∃ id, e.link = .back id) ∧ q ∈ outer

namespace CallTree

variable {α : Type}

@[induction_eliminator]
theorem induction {P : CallTree α → Prop}
    (node : ∀ p m parts, (∀ t ∈ parts, P t) → P (.node p m parts))
    (held : ∀ q, P (.held q)) (t : CallTree α) : P t :=
  t.rec (motive_2 := fun parts => ∀ t ∈ parts, P t) node held (by simp)
    fun _ _ h hs => List.forall_mem_cons.mpr ⟨h, hs⟩

mutual
/-- The nodes, each after those of its parts, which come from left to right. -/
def nodes : CallTree α → List (Proof × α)
  | .node p m parts => nodesOf parts ++ [(p, m)]
  | .held _ => []

def nodesOf : List (CallTree α) → List (Proof × α)
  | [] => []
  | t :: ts => t.nodes ++ nodesOf ts
end

mutual
/-- A tree is what a proof unfolds to while those of `outer` are under construction: it has a part
for each edge, which unfolds the proof that the edge leads to. -/
def Unfolds (table : ProofTable) (outer : List Proof) (p : Proof) : CallTree α → Prop
  | .node q _ parts => q = p ∧ PartsUnfold table (q :: outer) q.edges parts
  | .held _ => False

def PartsUnfold (table : ProofTable) (outer : List Proof) : List Edge → List (CallTree α) → Prop
  | [], [] => True
  | e :: es, t :: ts =>
    (∃ q, table.get? e.link.target = some q ∧
      (e.Held outer q ∧ t = .held q ∨ ¬e.Held outer q ∧ t.Unfolds table outer q)) ∧
      PartsUnfold table outer es ts
  | [], _ :: _ => False
  | _ :: _, [] => False
end

/-- The part of an edge is a leaf if the edge leads back to a proof under construction, and
otherwise what the proof that it leads to unfolds to. -/
def PartUnfolds (table : ProofTable) (outer : List Proof) (e : Edge) (t : CallTree α) : Prop :=
  ∃ q, table.get? e.link.target = some q ∧
    (e.Held outer q ∧ t = .held q ∨ ¬e.Held outer q ∧ t.Unfolds table outer q)

/-- A node of a tree with its parts, and with the nodes around it, innermost first. The tree itself
is amid `outer`. -/
inductive Within : List (Proof × α) → CallTree α → List (Proof × α) → Proof → α →
    List (CallTree α) → Prop
  | root {outer p m parts} : Within outer (.node p m parts) outer p m parts
  | part {outer p m parts t around q m' parts'} (ht : t ∈ parts)
      (h : Within ((p, m) :: outer) t around q m' parts') :
      Within outer (.node p m parts) around q m' parts'

theorem nodesOf_append (ts us : List (CallTree α)) :
    nodesOf (ts ++ us) = nodesOf ts ++ nodesOf us := by
  induction ts with
  | nil => rfl
  | cons t ts ih => simp [nodesOf, ih]

@[simp] theorem nodesOf_held (ts : List (CallTree α)) (q : Proof) :
    nodesOf (ts ++ [.held q]) = nodesOf ts := by
  simp [nodesOf_append, nodesOf, nodes]

theorem mem_nodesOf {ts : List (CallTree α)} {n : Proof × α} :
    n ∈ nodesOf ts ↔ ∃ t ∈ ts, n ∈ t.nodes := by
  induction ts with
  | nil => simp [nodesOf]
  | cons t ts ih => simp [nodesOf, ih]

theorem mem_nodesOf_node {ts parts : List (CallTree α)} {p : Proof} {m : α} {n : Proof × α} :
    n ∈ nodesOf (ts ++ [.node p m parts]) ↔
      n ∈ nodesOf ts ∨ n ∈ nodesOf parts ∨ n = (p, m) := by
  simp [nodesOf_append, nodesOf, nodes]

theorem exists_within {t : CallTree α} {n : Proof × α} (h : n ∈ t.nodes)
    (outer : List (Proof × α)) : ∃ around parts, Within outer t around n.1 n.2 parts := by
  induction t generalizing outer with
  | node p m parts ih =>
    rcases List.mem_append.mp h with h | h
    · obtain ⟨t, ht, hn⟩ := mem_nodesOf.mp h
      obtain ⟨around, parts', hw⟩ := ih t ht hn ((p, m) :: outer)
      exact ⟨around, parts', .part ht hw⟩
    · obtain rfl := List.mem_singleton.mp h
      exact ⟨outer, parts, .root⟩
  | held q => simp [nodes] at h

section

variable {β : Type} {table : ProofTable} {outer : List Proof} {es es' : List Edge} {e : Edge}
  {p q : Proof} {ts ts' : List (CallTree α)}

theorem PartsUnfold.length_eq (h : PartsUnfold table outer es ts) : ts.length = es.length := by
  induction es generalizing ts with
  | nil =>
    cases ts with
    | nil => rfl
    | cons t ts => exact h.elim
  | cons e es ih =>
    cases ts with
    | nil => exact h.elim
    | cons t ts => simp [ih h.2]

theorem PartsUnfold.append (h : PartsUnfold table outer es ts)
    (h' : PartsUnfold table outer es' ts') : PartsUnfold table outer (es ++ es') (ts ++ ts') := by
  induction es generalizing ts with
  | nil =>
    cases ts with
    | nil => exact h'
    | cons t ts => exact h.elim
  | cons e es ih =>
    cases ts with
    | nil => exact h.elim
    | cons t ts => exact ⟨h.1, ih h.2⟩

theorem PartsUnfold.getElem? {i : Nat} {t : CallTree α} (h : PartsUnfold table outer es ts)
    (he : es[i]? = some e) (ht : ts[i]? = some t) : t.PartUnfolds table outer e := by
  induction es generalizing ts i with
  | nil => simp at he
  | cons e' es ih =>
    cases ts with
    | nil => exact h.elim
    | cons t' ts =>
      cases i with
      | zero =>
        obtain rfl : e' = e := by simpa using he
        obtain rfl : t' = t := by simpa using ht
        exact h.1
      | succ i => exact ih h.2 (by simpa using he) (by simpa using ht)

/-- The nodes of an unfolding are recorded proofs, with a part for each of their edges. -/
theorem Unfolds.within {t : CallTree α} {outer' around : List (Proof × α)} {m : α}
    {parts : List (CallTree α)} (h : t.Unfolds table outer p) (hp : ∃ id, table.get? id = some p)
    (hw : Within outer' t around q m parts) :
    (∃ id, table.get? id = some q) ∧ ∃ outer, PartsUnfold table outer q.edges parts := by
  induction hw generalizing outer p with
  | root =>
    obtain ⟨rfl, hparts⟩ := h
    exact ⟨hp, _, hparts⟩
  | @part outer' p' m' parts' t around q m'' parts'' ht hw ih =>
    obtain ⟨rfl, hparts⟩ := h
    obtain ⟨i, hi⟩ := List.mem_iff_getElem?.mp ht
    have hlt : i < p'.edges.length := hparts.length_eq ▸ (List.getElem?_eq_some_iff.mp hi).1
    obtain ⟨q', hq', ⟨_, rfl⟩ | ⟨_, hu⟩⟩ := hparts.getElem? (List.getElem?_eq_getElem hlt) hi
    · cases hw
    · exact ih hu ⟨_, hq'⟩

theorem PartUnfolds.unique {t : CallTree α} {t' : CallTree β}
    (same : ∀ q, t.Unfolds table outer q → t'.Unfolds table outer q →
      t.nodes.map Prod.fst = t'.nodes.map Prod.fst)
    (h : t.PartUnfolds table outer e) (h' : t'.PartUnfolds table outer e) :
    t.nodes.map Prod.fst = t'.nodes.map Prod.fst := by
  obtain ⟨q, hq, hcase⟩ := h
  obtain ⟨q', hq', hcase'⟩ := h'
  obtain rfl := Option.some.inj (hq.symm.trans hq')
  rcases hcase with ⟨hheld, rfl⟩ | ⟨hfree, hu⟩
  · rcases hcase' with ⟨_, rfl⟩ | ⟨hfree', _⟩
    · rfl
    · exact absurd hheld hfree'
  · rcases hcase' with ⟨hheld', _⟩ | ⟨_, hu'⟩
    · exact absurd hheld' hfree
    · exact same q hu hu'

theorem PartsUnfold.unique {us : List (CallTree β)}
    (same : ∀ t ∈ ts, ∀ (t' : CallTree β) q, t.Unfolds table outer q → t'.Unfolds table outer q →
      t.nodes.map Prod.fst = t'.nodes.map Prod.fst)
    (h : PartsUnfold table outer es ts) (h' : PartsUnfold table outer es us) :
    (nodesOf ts).map Prod.fst = (nodesOf us).map Prod.fst := by
  induction es generalizing ts us with
  | nil =>
    cases ts <;> cases us <;> first | rfl | exact h.elim | exact h'.elim
  | cons e es ih =>
    cases ts with
    | nil => exact h.elim
    | cons t ts =>
      cases us with
      | nil => exact h'.elim
      | cons u us =>
        have hhead := PartUnfolds.unique (same t List.mem_cons_self u) h.1 h'.1
        have htail := ih (fun t ht => same t (List.mem_cons_of_mem _ ht)) h.2 h'.2
        simp [nodesOf, hhead, htail]

/-- What a proof unfolds to is the same up to the marks. -/
theorem Unfolds.unique {t : CallTree α} {t' : CallTree β} (h : t.Unfolds table outer p)
    (h' : t'.Unfolds table outer p) : t.nodes.map Prod.fst = t'.nodes.map Prod.fst := by
  induction t generalizing outer p t' with
  | node q m parts ih =>
    cases t' with
    | held r => exact h'.elim
    | node q' m' parts' =>
      obtain ⟨rfl, h⟩ := h
      obtain ⟨rfl, h'⟩ := h'
      simp [nodes, PartsUnfold.unique (fun t ht t' q => ih t ht) h h']
  | held q => exact h.elim

end

end CallTree

end Clausal
