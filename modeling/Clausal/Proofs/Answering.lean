import Clausal.Prover
import Clausal.Proofs.Mirroring

namespace Clausal

section

variable {ρ : RuleId → Variable → Variable} {catalog : Catalog} {policy : Policy}

/-- What is found of a goal over renamed rules is what is found over the rules, but for the
variables of conflicting bindings. -/
theorem Knowledge.prove_renamed (hi : catalog.Indexed) (hc : ∀ r ∈ catalog.rules, r.Renamable ρ)
    {known known' : Knowledge} (hk : known'.blurred = known.blurred) (budget : Nat) (goal : Term) :
    (known'.prove (catalog.renamed ρ) policy budget goal).map
        (Prod.map Outcome.blurred Knowledge.blurred) =
      (known.prove catalog policy budget goal).map
        (Prod.map Outcome.blurred Knowledge.blurred) := by
  have hhit := Knowledge.hit_alike hk
  have hmiss := Knowledge.miss_alike hk
  have hsearch := (Search.Mirrors.push hi hc hmiss .nil goal).run hi hc policy budget
  have hget := Ledger.alike_of_blurred (Knowledge.ledger_alike hk) goal
  unfold Knowledge.prove
  by_cases hground : (!goal.isGround) = true
  · rw [if_pos hground, if_pos hground]
    exact congrArg some (Prod.ext rfl hk)
  · rw [if_neg hground, if_neg hground]
    generalize known.ledger.get? goal = state, known'.ledger.get? goal = state' at hget ⊢
    cases hget with
    | none =>
      cases policy.refusal? [] goal with
      | some f => exact congrArg some (Prod.ext rfl hmiss)
      | none => exact hsearch
    | some hstate =>
      cases hstate with
      | resolved p => exact congrArg some (Prod.ext rfl hhit)
      | failed hf =>
        exact congrArg some (Prod.ext (congrArg Except.error (Failure.seenFrom_alike hf [])) hhit)
      | _ =>
        cases policy.refusal? [] goal with
        | some f => exact congrArg some (Prod.ext rfl hmiss)
        | none => exact hsearch

end

/-- What a call comes to: a plan or a failure, and what the counters show after it. -/
structure Answer where
  outcome : Except Failure Plan
  stats : LedgerStats

/-- The answer without the variables of conflicting bindings. -/
def Answer.blurred (a : Answer) : Answer :=
  { a with outcome := a.outcome.mapError Failure.blurred }

/-- The answers to calls made one after the other, each for a goal with a budget of steps. A call
that does not end within its budget is the last. -/
def Prover.answers {V : Type} (s : Prover V) : List (Nat × Term) → List Answer
  | [] => []
  | (budget, goal) :: calls =>
    match s.compile budget goal with
    | none => []
    | some (outcome, next) => ⟨outcome, next.stats⟩ :: next.answers calls

section

variable {ρ : RuleId → Variable → Variable} {V : Type} {s s' : Prover V}

/-- Two provers over rules that differ in the names of variables only have learnt the same. -/
structure Prover.Mirrors (ρ : RuleId → Variable → Variable) (s s' : Prover V) : Prop where
  indexed : s.catalog.Indexed
  renamable : ∀ r ∈ s.catalog.rules, r.Renamable ρ
  catalog : s'.catalog = s.catalog.renamed ρ
  policy : s'.policy = s.policy
  known : s'.known.blurred = s.known.blurred

/-- A call runs out of its budget in both provers, or ends in both with the same answer but for the
variables of conflicting bindings. -/
theorem Prover.Mirrors.compile (h : s.Mirrors ρ s') (budget : Nat) (goal : Term) :
    Option.Rel (fun a a' => a'.1.mapError Failure.blurred = a.1.mapError Failure.blurred ∧
      a.2.Mirrors ρ a'.2) (s.compile budget goal) (s'.compile budget goal) := by
  have hprove : (s'.known.prove s'.catalog s'.policy budget goal).map
        (Prod.map Outcome.blurred Knowledge.blurred) =
      (s.known.prove s.catalog s.policy budget goal).map
        (Prod.map Outcome.blurred Knowledge.blurred) := by
    rw [h.catalog, h.policy]
    exact Knowledge.prove_renamed h.indexed h.renamable h.known budget goal
  have hrel := rel_of_map_eq hprove
  unfold Prover.compile
  generalize s.known.prove s.catalog s.policy budget goal = a,
    s'.known.prove s'.catalog s'.policy budget goal = a' at hrel ⊢
  cases hrel with
  | none => exact .none
  | @some r r' he =>
    obtain ⟨o, known⟩ := r
    obtain ⟨o', known'⟩ := r'
    obtain ⟨ho, hk⟩ := Prod.mk.inj he
    cases Outcome.alike_of_blurred ho with
    | ok p =>
      have hplan : Plan.mk known'.table p = Plan.mk known.table p :=
        congrArg (Plan.mk · p) (Knowledge.table_alike hk)
      exact .some ⟨congrArg Except.ok hplan, { h with known := hk }⟩
    | error hf => exact .some ⟨congrArg Except.error hf, { h with known := hk }⟩

theorem Prover.Mirrors.stats (h : s.Mirrors ρ s') : s'.stats = s.stats := by
  rw [Prover.stats, Prover.stats, ← Ledger.stats_blurred, Knowledge.ledger_alike h.known,
    Ledger.stats_blurred]

theorem Prover.Mirrors.answers (h : s.Mirrors ρ s') (calls : List (Nat × Term)) :
    (s'.answers calls).map Answer.blurred = (s.answers calls).map Answer.blurred := by
  induction calls generalizing s s' with
  | nil => rfl
  | cons call calls ih =>
    obtain ⟨budget, goal⟩ := call
    have hcall := h.compile budget goal
    unfold Prover.answers
    generalize s.compile budget goal = a, s'.compile budget goal = a' at hcall ⊢
    cases hcall with
    | none => rfl
    | @some r r' hr =>
      obtain ⟨outcome, next⟩ := r
      obtain ⟨outcome', next'⟩ := r'
      obtain ⟨houtcome, hnext⟩ := hr
      simp only [List.map_cons, ih hnext, Answer.blurred, hnext.stats, houtcome]

end

/-- The variables of a rule are its own. Clauses of which each has its variables renamed, by any
renaming that keeps the variables of the clause apart, make up a catalog as the clauses do. Provers
over the two catalogs answer all calls alike, by the same plans or by failures that differ in the
variables of conflicting bindings only, and their counters agree after each call. -/
theorem renaming_irrelevant {clauses : List (String × Clause)} {catalog : Catalog}
    (ρ : RuleId → Variable → Variable) (hb : Catalog.build clauses = .ok catalog)
    (hρ : ∀ id e, clauses[id]? = some e → Set.InjOn (ρ id) {v | e.2.Has v}) :
    ∃ catalog', Catalog.build (renamedEach ρ clauses) = .ok catalog' ∧
      ∀ (V : Type) (policy : Policy) (calls : List (Nat × Term)),
        ((Prover.start catalog' policy : Prover V).answers calls).map Answer.blurred =
          ((Prover.start catalog policy : Prover V).answers calls).map Answer.blurred := by
  refine ⟨catalog.renamed ρ, Catalog.build_renamed ρ hb, fun V policy calls => ?_⟩
  have hstart : (Prover.start catalog policy : Prover V).Mirrors ρ
      (Prover.start (catalog.renamed ρ) policy) :=
    ⟨Catalog.build_indexed hb, Catalog.renamable_of_build hb hρ, rfl, rfl, rfl⟩
  exact hstart.answers calls

/-- A rule for a pair of two, and one for a pair of one over a variable of its own. -/
def pairing : List (String × Clause) :=
  [("core", ⟨"int", .const "Int", []⟩),
    ("core", ⟨"pair", pairOf (.var ⟨1, "a"⟩) (.var ⟨2, "b"⟩),
      [⟨.var ⟨1, "a"⟩, false⟩, ⟨.var ⟨2, "b"⟩, false⟩]⟩),
    ("core", ⟨"twin", .app "Twin" [.var ⟨3, "c"⟩, .var ⟨3, "c"⟩],
      [⟨pairOf (.var ⟨3, "c"⟩) (.var ⟨3, "c"⟩), false⟩]⟩)]

def pairingCatalog : Catalog where
  rules :=
    [⟨0, "core::int", .const "Int", []⟩,
      ⟨1, "core::pair", pairOf (.var ⟨1, "a"⟩) (.var ⟨2, "b"⟩),
        [⟨.var ⟨1, "a"⟩, false⟩, ⟨.var ⟨2, "b"⟩, false⟩]⟩,
      ⟨2, "core::twin", .app "Twin" [.var ⟨3, "c"⟩, .var ⟨3, "c"⟩],
        [⟨pairOf (.var ⟨3, "c"⟩) (.var ⟨3, "c"⟩), false⟩]⟩]
  index := [("Int", [0]), ("Pair", [1]), ("Twin", [2])]
  arities := [("Int", 0), ("Pair", 2), ("Twin", 2)]

theorem build_pairing : Catalog.build pairing = .ok pairingCatalog := by
  decide

/-- Exchanges the variables of the pair, and makes the variable of the twin one of them. -/
def exchanged (_ : RuleId) (v : Variable) : Variable :=
  if v = ⟨1, "a"⟩ then ⟨2, "b"⟩ else ⟨1, "a"⟩

def pairingCalls : List (Nat × Term) :=
  [(20, .app "Twin" [.const "Int", .const "Int"]), (20, .app "Twin" [.const "Int", .const "Bool"])]

/-- The first call gives a plan, and the second fails for a variable that the two catalogs name
differently. -/
theorem pairing_exchanged : ∃ catalog',
    Catalog.build (renamedEach exchanged pairing) = .ok catalog' ∧
    ((Prover.start catalog' .default : Prover Unit).answers pairingCalls).map Answer.blurred =
      ((Prover.start pairingCatalog .default : Prover Unit).answers pairingCalls).map
        Answer.blurred ∧
    ((Prover.start pairingCatalog .default : Prover Unit).answers pairingCalls).length = 2 := by
  have happart : ∀ e ∈ pairing, ∀ v ∈ e.2.patterns.flatMap Term.occurrences,
      ∀ w ∈ e.2.patterns.flatMap Term.occurrences, exchanged 0 v = exchanged 0 w → v = w := by
    decide
  obtain ⟨catalog', hb, hanswers⟩ := renaming_irrelevant exchanged build_pairing
    fun id e he v hv w hw => happart e (List.mem_of_getElem? he) v (List.mem_flatMap.mpr hv) w
      (List.mem_flatMap.mpr hw)
  exact ⟨catalog', hb, hanswers Unit .default pairingCalls, by decide +kernel⟩

end Clausal
