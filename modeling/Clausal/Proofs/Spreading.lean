import Clausal.Proofs.Course
import Mathlib.Order.Bounds.Defs

namespace Clausal

namespace Spread

variable {failure : Failure} {parked : List Term} {s t u : Spread}

/-- The loop of sweeps, begun at the one spread, ends at the other. Nothing bounds the number of its
rounds: it goes on for as long as a sweep fails some goal. -/
inductive EndsAt (failure : Failure) (parked : List Term) : Spread → Spread → Prop
  | rest {s : Spread} : (sweep failure parked s).changed = false →
      EndsAt failure parked s (sweep failure parked s)
  | again {s t : Spread} : (sweep failure parked s).changed = true →
      EndsAt failure parked (sweep failure parked s) t → EndsAt failure parked s t

theorem EndsAt.unique (h : EndsAt failure parked s t) (h' : EndsAt failure parked s u) : t = u := by
  induction h with
  | rest hc =>
    cases h' with
    | rest _ => rfl
    | again hc' _ => cases hc.symm.trans hc'
  | again hc _ ih =>
    cases h' with
    | rest hc' => cases hc.symm.trans hc'
    | again _ h' => exact ih h'

theorem standing_sweep (failure : Failure) (parked : List Term) (s : Spread)
    (hc : (sweep failure parked s).changed = true) :
    standing parked (sweep failure parked s) < standing parked s := by
  have hs : standing parked { s with changed := false } = standing parked s := rfl
  rw [sweep] at hc ⊢
  rcases standing_fold failure (fun _ (h : _ ∈ parked) => h) { s with changed := false } with he | hlt
  · rw [he] at hc
    cases hc
  · omega

/-- Each sweep that does not end the loop fails a goal, so with more rounds than goals left standing
the bounded loop is the unbounded one. -/
theorem endsAt_close (failure : Failure) {parked : List Term} {budget : Nat} {s : Spread}
    (hb : standing parked s < budget) :
    EndsAt failure parked s (close failure parked budget s) := by
  induction budget generalizing s with
  | zero => omega
  | succ budget ih =>
    simp only [close]
    split
    next hc =>
      have hlt := standing_sweep failure parked s hc
      exact .again hc (ih (by omega))
    next hc => exact .rest (by simpa using hc)

end Spread

namespace Ledger

variable {ledger : Ledger} {failure : Failure} {goal g : Term} {own own' lower lower' : List Term}

theorem endsAt_spread (ledger : Ledger) (failure : Failure) (goal : Term)
    (own lower : List Term) :
    Spread.EndsAt failure (own ++ lower)
      ⟨ledger, ledger.firstFailing failure.isDepthExceeded goal own lower, false⟩
      (ledger.spread failure goal own lower) :=
  Spread.endsAt_close failure (Nat.lt_succ_of_le (Spread.standing_le _ _))

/-- Only which goals are parked matters for what a failure reaches, not their order. -/
theorem Affected.mono {cut : Bool} (h : ledger.Affected cut goal own lower g)
    (hown : ∀ x ∈ own, x ∈ own') (hlower : ∀ x ∈ lower, x ∈ lower') :
    ledger.Affected cut goal own' lower' g := by
  have hmem : ∀ x ∈ own ++ lower, x ∈ own' ++ lower' := by
    intro x hx
    rcases List.mem_append.mp hx with hx | hx
    · exact List.mem_append_left _ (hown x hx)
    · exact List.mem_append_right _ (hlower x hx)
  induction h with
  | goal => exact .goal
  | own hc hg => exact .own hc (hown _ hg)
  | failure hg he => exact .failure (hmem _ hg) he
  | leads hg hp he _ ih => exact .leads (hmem _ hg) hp he ih

theorem affected_perm {cut : Bool} (hown : own.Perm own') (hlower : lower.Perm lower') :
    ledger.Affected cut goal own lower g ↔ ledger.Affected cut goal own' lower' g :=
  ⟨fun h => h.mono (fun _ => hown.mem_iff.mp) (fun _ => hlower.mem_iff.mp),
    fun h => h.mono (fun _ => hown.mem_iff.mpr) (fun _ => hlower.mem_iff.mpr)⟩

end Ledger

namespace Search

variable {catalog : Catalog} {policy : Policy} {s : Search} {e : Edge} {g g' : Term} {X : Set Term}

/-- An edge leads to a goal: that of the proof with the edge's number or, while there is none, of the
frame which searches under that number. -/
def Targets (s : Search) (e : Edge) (g : Term) : Prop :=
  (∃ p, s.table.get? e.link.target = some p ∧ p.goal = g) ∨
    ∃ f ∈ s.stack, f.id = e.link.target ∧ f.goal = g

/-- The goals include that of the top frame, which fails, and are closed under what a failure takes
with it: failures parked on the stack, all that is parked on the frame if the depth bound is the
cause, and parked successes with an edge into the goals. -/
structure Reached (s : Search) (cut : Bool) (X : Set Term) : Prop where
  goal : s.top.goal ∈ X
  own : cut = true → ∀ g ∈ s.top.parked, g ∈ X
  failure : ∀ g f, (∃ fr ∈ s.stack, g ∈ fr.parked) →
    (∃ low chain, s.ledger.get? g = some (.provisional low (.error f) chain)) → g ∈ X
  leads : ∀ g p e g', (∃ fr ∈ s.stack, g ∈ fr.parked) →
    (∃ low chain, s.ledger.get? g = some (.provisional low (.ok p) chain)) →
    e ∈ p.edges → s.Targets e g' → g' ∈ X → g ∈ X

theorem mem_parked_iff :
    g ∈ s.top.parked ++ s.below.flatMap Frame.parked ↔ ∃ fr ∈ s.stack, g ∈ fr.parked := by
  simp only [stack, List.mem_append, List.mem_flatMap, List.mem_singleton]
  constructor
  · rintro (h | ⟨fr, hfr, h⟩)
    · exact ⟨s.top, .inr rfl, h⟩
    · exact ⟨fr, .inl hfr, h⟩
  · rintro ⟨fr, hfr | rfl, h⟩
    · exact .inr ⟨fr, hfr, h⟩
    · exact .inl h

/-- An edge of a provisional success leads to the goal that it is for, and to no other. -/
theorem targets_iff (ha : Aligned s.stack s.ledger.get?)
    (hg : ProofGraph catalog s.stack s.ledger.get? s.table) {low : Nat} {p : Proof}
    {chain : GoalChain} (hp : s.ledger.get? g = some (.provisional low (.ok p) chain))
    (he : e ∈ p.edges) : s.Targets e g' ↔ g' = e.goal := by
  obtain ⟨_, _, hbacked⟩ := hg.warranted.provisional g low p chain hp
  have recorded : ∀ q, s.table.get? q.id = some q → q.goal = e.goal → q.id = e.link.target →
      (s.Targets e g' ↔ g' = e.goal) := by
    intro q hq hgoal hid
    constructor
    · rintro (⟨q', hq', rfl⟩ | ⟨f, hf, hfid, _⟩)
      · rw [← hid, hq] at hq'
        rw [← hgoal, Option.some.inj hq']
      · obtain ⟨i, hi⟩ := List.mem_iff_getElem?.mp hf
        have hnone := (hg.numbered.fresh i f hi).2
        rw [hfid, ← hid, hq] at hnone
        cases hnone
    · rintro rfl
      exact .inl ⟨q, hid ▸ hq, hgoal⟩
  cases hbacked e he with
  | @resolved q hres hid =>
    obtain ⟨hgoal, hq, _⟩ := hg.warranted.resolved e.goal q hres
    exact recorded q hq hgoal hid
  | @provisional k q c hprov hid _ =>
    obtain ⟨hgoal, hq, _⟩ := hg.warranted.provisional e.goal k q c hprov
    exact recorded q hq hgoal hid
  | @inProgress j id hunder hid _ =>
    obtain ⟨f, hf, hgoal, hfid⟩ := ha.inProgress e.goal j id hunder
    have hnone : s.table.get? e.link.target = none := by
      rw [← hid, ← hfid]
      exact (hg.numbered.fresh j f hf).2
    constructor
    · rintro (⟨q, hq, _⟩ | ⟨f', hf', hfid', rfl⟩)
      · cases hnone.symm.trans hq
      · obtain ⟨j', hj'⟩ := List.mem_iff_getElem?.mp hf'
        have hsame : f'.id = f.id := by rw [hfid', hfid, hid]
        rcases Nat.lt_trichotomy j j' with hlt | rfl | hlt
        · have hids := hg.numbered.ascending j j' f f' hf hj' hlt
          rw [hsame] at hids
          exact absurd hids (Nat.lt_irrefl _)
        · rw [← hgoal, Option.some.inj (hj'.symm.trans hf)]
        · have hids := hg.numbered.ascending j' j f' f hj' hf hlt
          rw [hsame] at hids
          exact absurd hids (Nat.lt_irrefl _)
    · rintro rfl
      exact .inr ⟨f, List.mem_of_getElem? hf, hfid.trans hid, hgoal⟩

/-- What the failure of the top frame affects is the least set of goals that it can reach. -/
theorem isLeast_affected (ha : Aligned s.stack s.ledger.get?)
    (hg : ProofGraph catalog s.stack s.ledger.get? s.table) (cut : Bool) :
    IsLeast {X | s.Reached cut X} {g | s.Affected cut g} := by
  refine ⟨⟨.goal, fun hc g hm => .own hc hm, ?_, ?_⟩, ?_⟩
  · rintro g f hm ⟨low, chain, hf⟩
    exact .failure (mem_parked_iff.mpr hm) hf
  · rintro g p e g' hm ⟨low, chain, hp⟩ he ht hg'
    obtain rfl := (targets_iff ha hg hp he).mp ht
    exact .leads (mem_parked_iff.mpr hm) hp he hg'
  · intro X hX g haffected
    have hX : s.Reached cut X := hX
    induction haffected with
    | goal => exact hX.goal
    | own hc hm => exact hX.own hc _ hm
    | failure hm hf => exact hX.failure _ _ (mem_parked_iff.mp hm) ⟨_, _, hf⟩
    | leads hm hp he _ ih =>
      exact hX.leads _ _ _ _ (mem_parked_iff.mp hm) ⟨_, _, hp⟩ he
        ((targets_iff ha hg hp he).mpr rfl) ih

end Search

/-- A failure of `goal` takes exactly the goals `D` with it: the loop of sweeps ends with these
failing, and no other entry changes. Successes among them become failures, unless the failure is by
the depth bound, which drops all their entries. -/
structure Ledger.SpreadsTo (ledger : Ledger) (failure : Failure) (goal : Term)
    (own lower : List Term) (D : Set Term) : Prop where
  ends : Spread.EndsAt failure (own ++ lower)
    ⟨ledger, ledger.firstFailing failure.isDepthExceeded goal own lower, false⟩
    (ledger.spread failure goal own lower)
  failing : ∀ g, g ∈ (ledger.spread failure goal own lower).failing ↔ g ∈ D
  kept : ∀ g, g ∉ D → (ledger.spreadFailure failure goal own lower).get? g = ledger.get? g
  failed : failure.isDepthExceeded = false → ∀ g ∈ D, ∀ low p chain,
    ledger.get? g = some (.provisional low (.ok p) chain) → ∃ converted,
      (ledger.spreadFailure failure goal own lower).get? g =
        some (.provisional low (.error converted) chain)
  untouched : failure.isDepthExceeded = false → ∀ g,
    (∀ low p chain, ledger.get? g ≠ some (.provisional low (.ok p) chain)) →
      (ledger.spreadFailure failure goal own lower).get? g = ledger.get? g
  dropped : failure.isDepthExceeded = true → ∀ g ∈ D,
    (ledger.spreadFailure failure goal own lower).get? g = none

theorem Ledger.spreadsTo_affected {ledger : Ledger} (failure : Failure) {goal : Term}
    (own lower : List Term)
    (hgoal : ∀ low p chain, ledger.get? goal ≠ some (.provisional low (.ok p) chain)) :
    ledger.SpreadsTo failure goal own lower
      {g | ledger.Affected failure.isDepthExceeded goal own lower g} where
  ends := ledger.endsAt_spread failure goal own lower
  failing _ := mem_spread_failing
  kept _ hg := get?_spreadFailure_of_not_affected hg
  failed := by
    intro hf g hg low p chain hp
    rcases get?_spreadFailure_of_affected hf (hf ▸ hg) with
      ⟨_, rfl | ⟨low', f, chain', hfailed⟩⟩ | ⟨low', p', chain', i, e, hp', _, he⟩
    · exact absurd hp (hgoal low p chain)
    · cases hp.symm.trans hfailed
    · cases hp.symm.trans hp'
      exact ⟨_, he⟩
  untouched := by
    intro hf g hn
    by_cases hg : ledger.Affected failure.isDepthExceeded goal own lower g
    · rcases get?_spreadFailure_of_affected hf (hf ▸ hg) with
        ⟨hsame, _⟩ | ⟨low, p, chain, _, _, hp, _, _⟩
      · exact hsame
      · exact absurd hp (hn low p chain)
    · exact get?_spreadFailure_of_not_affected hg
  dropped hf g hg := get?_spreadFailure_of_cut hf (hf ▸ hg)

/-- However the top frame of a search fails, the failure spreads to exactly the least set of goals
that it can reach, in whatever order the parked goals are gone through. -/
theorem failure_spreads_exactly {clauses : List (String × Clause)} {catalog : Catalog}
    {policy : Policy} {V : Type} {past reached : List Search} {prover : Prover V} {s : Search}
    (hb : Catalog.build clauses = .ok catalog)
    (hs : Session catalog policy past prover)
    (hreached : Course catalog policy (.idle prover.known) reached (.searching s))
    (failure : Failure) : ∃ D : Set Term, IsLeast {X | s.Reached failure.isDepthExceeded X} D ∧
      ∀ own lower, own.Perm s.top.parked → lower.Perm (s.below.flatMap Frame.parked) →
        s.ledger.SpreadsTo failure s.top.goal own lower D := by
  have hc := Catalog.build_indexed hb
  obtain ⟨_, _, hlearnt⟩ := hs.learnt
  obtain ⟨hidle, hgraph⟩ := (proofGraph_invariant policy hc).kept.learnt hlearnt
  obtain ⟨haligned, hsgraph⟩ :=
    hreached.carried (proofGraph_invariant policy hc).toCarried [] hidle hgraph
  refine ⟨_, Search.isLeast_affected haligned hsgraph _, fun own lower hown hlower => ?_⟩
  have hsame : {g | s.Affected failure.isDepthExceeded g} =
      {g | s.ledger.Affected failure.isDepthExceeded s.top.goal own lower g} :=
    Set.ext fun g => (Ledger.affected_perm hown hlower).symm
  rw [hsame]
  refine Ledger.spreadsTo_affected failure own lower fun low p chain hp => ?_
  cases (Search.top_framed haligned).symm.trans hp

/-- The rim needs the spoke, and that needs the hub, which fails for want of an axle. -/
def wheel : List (String × Clause) :=
  [("p", ⟨"hub", .const "Hub", [⟨.const "Rim", true⟩, ⟨.const "Axle", false⟩]⟩),
    ("p", ⟨"spoke", .const "Spoke", [⟨.const "Hub", true⟩]⟩),
    ("p", ⟨"rim", .const "Rim", [⟨.const "Spoke", false⟩]⟩)]

def wheelCatalog : Catalog where
  rules := [⟨0, "p::hub", .const "Hub", [⟨.const "Rim", true⟩, ⟨.const "Axle", false⟩]⟩,
    ⟨1, "p::spoke", .const "Spoke", [⟨.const "Hub", true⟩]⟩,
    ⟨2, "p::rim", .const "Rim", [⟨.const "Spoke", false⟩]⟩]
  index := [("Hub", [0]), ("Spoke", [1]), ("Rim", [2])]
  arities := [("Hub", 0), ("Rim", 0), ("Axle", 0), ("Spoke", 0)]

theorem build_wheel : Catalog.build wheel = .ok wheelCatalog := by decide

def Outcome.failure? : Outcome → Option Failure
  | .ok _ => none
  | .error f => some f

/-- The hub is done and fails. Both parked goals are reached, the rim only by way of the spoke. -/
theorem wheel_spreads : ∃ past, ∃ prover : Prover Unit, ∃ reached s failure,
    Session wheelCatalog Policy.default past prover ∧
    Course wheelCatalog Policy.default (.idle prover.known) reached (.searching s) ∧
    s.verdict Policy.default = .error failure ∧
    s.top.parked = [.const "Spoke", .const "Rim"] ∧
    ∃ D : Set Term, IsLeast {X | s.Reached failure.isDepthExceeded X} D ∧ .const "Rim" ∈ D ∧
      s.ledger.SpreadsTo failure s.top.goal [.const "Rim", .const "Spoke"] [] D := by
  have hany : (Knowledge.empty.trace wheelCatalog Policy.default 20 (.const "Hub")).any (fun e =>
      e.below.isEmpty && decide (e.top.parked = [.const "Spoke", .const "Rim"]) &&
      (e.verdict Policy.default).failure?.any fun f =>
        (e.ledger.spread f e.top.goal [.const "Rim", .const "Spoke"] []).failing.contains
          (.const "Rim")) = true := by decide +kernel
  obtain ⟨e, he, hall⟩ := List.any_eq_true.mp hany
  obtain ⟨hshape, hfailing⟩ := Bool.and_eq_true_iff.mp hall
  obtain ⟨hempty, hparked⟩ := Bool.and_eq_true_iff.mp hshape
  have hbelow : e.below = [] := List.isEmpty_iff.mp hempty
  have hparked : e.top.parked = [.const "Spoke", .const "Rim"] := of_decide_eq_true hparked
  obtain ⟨reached, hreached⟩ := Course.rest.of_mem_trace he
  have hs : Session wheelCatalog Policy.default [] (.start wheelCatalog Policy.default) :=
    .start (V := Unit)
  cases hv : e.verdict Policy.default with
  | ok p =>
    rw [hv] at hfailing
    cases hfailing
  | error failure =>
    obtain ⟨D, hleast, hspreads⟩ := failure_spreads_exactly build_wheel hs hreached failure
    have hturned := hspreads [.const "Rim", .const "Spoke"] []
      (hparked ▸ List.Perm.swap _ _ _) (by simp [hbelow])
    have hrim := (hturned.failing (.const "Rim")).mp (by simpa [hv, Outcome.failure?] using hfailing)
    exact ⟨_, _, reached, e, failure, hs, hreached, hv, hparked, D, hleast, hrim, hturned⟩

end Clausal
