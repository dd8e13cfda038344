import Clausal.Proofs.Candidates
import Clausal.Prover
import Mathlib.Data.Finite.Defs
import Mathlib.Data.Fintype.Card
import Mathlib.Logic.Relation
import Mathlib.Order.WellFounded

namespace Clausal

/-- A proof without promises, written out as a tree. -/
inductive ProofTree where
  | node (goal : Term) (rule : RuleId) (name : String) (subproofs : List ProofTree)

/-- What the plain recursion finds for a goal. Its failures have empty chains. -/
abbrev Solution := Except Failure ProofTree

/-- A rule that was tried for a goal, with the proof it gives or the reason why it gives none. -/
abbrev Tried := List (Rule × Except Attempt ProofTree)

def Tried.proofs (tried : Tried) : List (Rule × ProofTree) :=
  tried.filterMap fun t =>
    match t.2 with
    | .ok p => some (t.1, p)
    | .error _ => none

def Tried.attempts (tried : Tried) : List Attempt :=
  tried.filterMap fun t =>
    match t.2 with
    | .ok _ => none
    | .error a => some a

/-- The proof by the rule whose head is strictly more specific than the heads of all the others. -/
def TieBreak.winner? (tie : TieBreak) (proofs : List (Rule × ProofTree)) : Option ProofTree :=
  match tie with
  | .strict => none
  | .mostSpecific =>
    (proofs.find? fun p =>
      proofs.all fun q => q.1.id == p.1.id || p.1.head.dominates q.1.head).map Prod.snd

/-- What comes of a goal for which all rules have been tried. -/
def Tried.solution (tie : TieBreak) (goal : Term) (tried : Tried) : Solution :=
  match tried.proofs with
  | [] => .error (.noRule goal [] tried.attempts)
  | [p] => .ok p.2
  | _ =>
    match tie.winner? tried.proofs with
    | some p => .ok p
    | none => .error (.ambiguous goal [] (tried.proofs.map fun p => p.1.name))

theorem Tried.solution_of_several {tie : TieBreak} {goal : Term} {tried : Tried}
    (h : 2 ≤ tried.proofs.length) : tried.solution tie goal =
      match tie.winner? tried.proofs with
      | some p => .ok p
      | none => .error (.ambiguous goal [] (tried.proofs.map fun p => p.1.name)) := by
  unfold solution
  match tried.proofs, h with
  | _ :: _ :: _, _ => rfl

/-- Solves requirements of a rule from left to right, the first of which has index `i`, up to the
first failure. The goals that they become are left to `ask`. -/
def Rule.meet (r : Rule) (ask : Term → Option Solution) (subst : Substitution) (i : Nat) :
    List Requirement → Option (Except Attempt (List ProofTree))
  | [] => some (.ok [])
  | requirement :: rest =>
    match subst.apply requirement.pattern with
    | .error v => some (.error (.unbound r.name v))
    | .ok goal => do
      match ← ask goal with
      | .error cause => return .error (.subgoal r.name i goal cause)
      | .ok p =>
        let met ← r.meet ask subst (i + 1) rest
        return met.map fun subproofs => p :: subproofs

def Rule.solve (r : Rule) (ask : Term → Option Solution) (goal : Term) :
    Option (Except Attempt ProofTree) :=
  match unify goal r.head with
  | .error reason => some (.error (.mismatch r.name reason))
  | .ok subst => do
    let met ← r.meet ask subst 0 r.body
    return met.map fun subproofs => .node goal r.id r.name subproofs

namespace Catalog

/-- Solves a goal by plain recursion to some depth: every rule with the goal's constructor at the
head is tried, in the order of registration. -/
def solve (catalog : Catalog) (tie : TieBreak) : Nat → Term → Option Solution
  | 0, _ => none
  | depth + 1, goal => do
    let tried ← (catalog.rules.filter fun r => r.head.ctor? = goal.ctor?).mapM fun r => do
      let result ← r.solve (catalog.solve tie depth) goal
      return (r, result)
    return Tried.solution tie goal tried

open Classical in
/-- What the plain recursion finds to any depth that is enough. -/
noncomputable def solved (catalog : Catalog) (tie : TieBreak) (goal : Term) : Option Solution :=
  if h : ∃ v depth, catalog.solve tie depth goal = some v then some h.choose else none

/-- Some rule whose head matches a goal asks for another one. -/
def Needs (catalog : Catalog) (goal subgoal : Term) : Prop :=
  ∃ r ∈ catalog.rules, ∃ subst, unify goal r.head = .ok subst ∧
    ∃ q ∈ r.body, subst.apply q.pattern = .ok subgoal

/-- No chain of needs goes on from a goal for ever. -/
def Grounded (catalog : Catalog) (goal : Term) : Prop :=
  Acc (fun subgoal goal => catalog.Needs goal subgoal) goal

variable {catalog : Catalog} {goal subgoal : Term}

theorem Grounded.needs (h : catalog.Grounded goal) (hn : catalog.Needs goal subgoal) :
    catalog.Grounded subgoal :=
  h.inv hn

theorem Grounded.not_cycle (h : catalog.Grounded goal) :
    ¬Relation.TransGen catalog.Needs goal goal := by
  induction h with
  | intro goal _ ih =>
    intro hc
    obtain ⟨next, hn, hr⟩ := Relation.TransGen.head'_iff.mp hc
    exact ih next hn (Relation.TransGen.tail' hr hn)

/-- Where finitely many goals can be reached and none reaches itself, chains of needs end. -/
theorem grounded_of_finite (hfin : {x | Relation.ReflTransGen catalog.Needs goal x}.Finite)
    (hacyclic : ∀ x, Relation.ReflTransGen catalog.Needs goal x →
      ¬Relation.TransGen catalog.Needs x x) : catalog.Grounded goal := by
  let S := {x | Relation.ReflTransGen catalog.Needs goal x}
  have : Finite S := hfin
  let r : S → S → Prop := fun x y => Relation.TransGen catalog.Needs y.1 x.1
  have : IsTrans S r := ⟨fun _ _ _ hxy hyz => hyz.trans hxy⟩
  have : Std.Irrefl r := ⟨fun x => hacyclic x.1 x.2⟩
  have hwf : WellFounded r := Finite.wellFounded_of_trans_of_irrefl r
  have hacc : ∀ x : S, catalog.Grounded x.1 := by
    intro x
    induction hwf.apply x with
    | intro x _ ih =>
      refine ⟨x.1, fun y hy => ?_⟩
      exact ih ⟨y, Relation.ReflTransGen.tail x.2 hy⟩ (.single hy)
  exact hacc ⟨goal, .refl⟩

theorem mapM_tried {f : Rule → Option (Except Attempt ProofTree)} {rules : List Rule}
    {tried : Tried} : (rules.mapM fun r => do
      let result ← f r
      return (r, result)) = some tried ↔
      tried.map Prod.fst = rules ∧ ∀ t ∈ tried, f t.1 = some t.2 := by
  induction rules generalizing tried with
  | nil => cases tried <;> simp
  | cons r rules ih =>
    rw [List.mapM_cons]
    constructor
    · intro h
      obtain ⟨t, ht, h⟩ := Option.bind_eq_some_iff.mp h
      obtain ⟨result, hresult, ht⟩ := Option.bind_eq_some_iff.mp ht
      obtain ⟨rest, hrest, h⟩ := Option.bind_eq_some_iff.mp h
      obtain rfl : (r, result) = t := Option.some.inj ht
      obtain rfl : (r, result) :: rest = tried := Option.some.inj h
      obtain ⟨hmap, hall⟩ := ih.mp hrest
      refine ⟨by rw [List.map_cons, hmap], ?_⟩
      intro t ht
      rcases List.mem_cons.mp ht with rfl | ht
      · exact hresult
      · exact hall t ht
    · rintro ⟨hmap, hall⟩
      cases tried with
      | nil => cases hmap
      | cons t rest =>
        obtain ⟨rfl, hrest⟩ := List.cons.inj hmap
        rw [ih.mpr ⟨hrest, fun x hx => hall x (List.mem_cons_of_mem t hx)⟩,
          hall t List.mem_cons_self]
        rfl

theorem exists_tried {f : Rule → Option (Except Attempt ProofTree)} (rules : List Rule)
    (h : ∀ r ∈ rules, ∃ result, f r = some result) :
    ∃ tried : Tried, tried.map Prod.fst = rules ∧ ∀ t ∈ tried, f t.1 = some t.2 := by
  induction rules with
  | nil => exact ⟨[], rfl, by simp⟩
  | cons r rules ih =>
    obtain ⟨result, hresult⟩ := h r List.mem_cons_self
    obtain ⟨tried, hmap, htried⟩ := ih fun x hx => h x (List.mem_cons_of_mem r hx)
    refine ⟨(r, result) :: tried, by simp [hmap], ?_⟩
    intro t ht
    rcases List.mem_cons.mp ht with rfl | ht
    · exact hresult
    · exact htried t ht

theorem solve_succ {tie : TieBreak} {depth : Nat} {v : Solution} :
    catalog.solve tie (depth + 1) goal = some v ↔ ∃ tried : Tried,
      tried.map Prod.fst = (catalog.rules.filter fun r => r.head.ctor? = goal.ctor?) ∧
        (∀ t ∈ tried, t.1.solve (catalog.solve tie depth) goal = some t.2) ∧
          tried.solution tie goal = v := by
  rw [solve]
  constructor
  · intro h
    obtain ⟨tried, htried, h⟩ := Option.bind_eq_some_iff.mp h
    obtain ⟨hmap, hall⟩ := mapM_tried.mp htried
    exact ⟨tried, hmap, hall, Option.some.inj h⟩
  · rintro ⟨tried, hmap, hall, rfl⟩
    rw [mapM_tried.mpr ⟨hmap, hall⟩]
    rfl

section

variable {ask ask' : Term → Option Solution} {r : Rule} {subst : Substitution}

theorem meet_mono (hask : ∀ g v, ask g = some v → ask' g = some v) {body : List Requirement}
    {i : Nat} {met : Except Attempt (List ProofTree)} (h : r.meet ask subst i body = some met) :
    r.meet ask' subst i body = some met := by
  induction body generalizing i met with
  | nil => exact h
  | cons q rest ih =>
    rw [Rule.meet] at h ⊢
    cases ha : subst.apply q.pattern with
    | error v => simpa only [ha] using h
    | ok goal =>
      simp only [ha] at h ⊢
      obtain ⟨v, hv, h⟩ := Option.bind_eq_some_iff.mp h
      rw [hask goal v hv]
      cases v with
      | error cause => exact h
      | ok p =>
        obtain ⟨met', hmet, h⟩ := Option.bind_eq_some_iff.mp h
        simp only [Option.bind_eq_bind, Option.bind_some, ih hmet]
        exact h

theorem rule_solve_mono (hask : ∀ g v, ask g = some v → ask' g = some v)
    {result : Except Attempt ProofTree} (h : r.solve ask goal = some result) :
    r.solve ask' goal = some result := by
  rw [Rule.solve] at h ⊢
  cases hu : unify goal r.head with
  | error reason => simpa only [hu] using h
  | ok subst =>
    simp only [hu] at h ⊢
    obtain ⟨met, hmet, h⟩ := Option.bind_eq_some_iff.mp h
    rw [meet_mono hask hmet]
    exact h

end

theorem solve_step {tie : TieBreak} {depth : Nat} {v : Solution}
    (h : catalog.solve tie depth goal = some v) : catalog.solve tie (depth + 1) goal = some v := by
  induction depth generalizing goal v with
  | zero => cases h
  | succ depth ih =>
    obtain ⟨tried, hmap, hall, hv⟩ := solve_succ.mp h
    exact solve_succ.mpr ⟨tried, hmap, fun t ht => rule_solve_mono (fun _ _ => ih) (hall t ht), hv⟩

/-- More depth changes nothing that the plain recursion has found. -/
theorem solve_mono {tie : TieBreak} {depth depth' : Nat} {v : Solution} (hle : depth ≤ depth')
    (h : catalog.solve tie depth goal = some v) : catalog.solve tie depth' goal = some v := by
  induction hle with
  | refl => exact h
  | step _ ih => exact solve_step ih

theorem solved_eq_some_iff {tie : TieBreak} {v : Solution} :
    catalog.solved tie goal = some v ↔ ∃ depth, catalog.solve tie depth goal = some v := by
  unfold solved
  constructor
  · intro h
    split at h
    next hex =>
      obtain rfl := Option.some.inj h
      exact hex.choose_spec
    · cases h
  · rintro ⟨depth, hv⟩
    have hex : ∃ v depth, catalog.solve tie depth goal = some v := ⟨v, depth, hv⟩
    rw [dif_pos hex]
    obtain ⟨depth', hv'⟩ := hex.choose_spec
    have h := solve_mono (le_max_left depth depth') hv
    have h' := solve_mono (le_max_right depth depth') hv'
    exact h'.symm.trans h

theorem exists_depth_meet {tie : TieBreak} {r : Rule} {subst : Substitution}
    {body : List Requirement} {i : Nat} {met : Except Attempt (List ProofTree)}
    (h : r.meet (catalog.solved tie) subst i body = some met) :
    ∃ depth, r.meet (catalog.solve tie depth) subst i body = some met := by
  induction body generalizing i met with
  | nil => exact ⟨0, h⟩
  | cons q rest ih =>
    rw [Rule.meet] at h
    cases ha : subst.apply q.pattern with
    | error v => exact ⟨0, by rw [Rule.meet]; simpa only [ha] using h⟩
    | ok goal =>
      simp only [ha] at h
      obtain ⟨v, hv, h⟩ := Option.bind_eq_some_iff.mp h
      obtain ⟨depth, hdepth⟩ := solved_eq_some_iff.mp hv
      cases v with
      | error cause =>
        refine ⟨depth, ?_⟩
        rw [Rule.meet]
        simp only [ha, hdepth]
        exact h
      | ok p =>
        obtain ⟨met', hmet, h⟩ := Option.bind_eq_some_iff.mp h
        obtain ⟨depth', hdepth'⟩ := ih hmet
        refine ⟨max depth depth', ?_⟩
        have hmax := meet_mono (fun _ _ => solve_mono (le_max_right depth depth')) hdepth'
        rw [Rule.meet]
        simp only [ha, solve_mono (le_max_left depth depth') hdepth, Option.bind_eq_bind,
          Option.bind_some, hmax]
        exact h

theorem exists_depth_solve {tie : TieBreak} {r : Rule} {result : Except Attempt ProofTree}
    (h : r.solve (catalog.solved tie) goal = some result) :
    ∃ depth, r.solve (catalog.solve tie depth) goal = some result := by
  rw [Rule.solve] at h
  cases hu : unify goal r.head with
  | error reason => exact ⟨0, by rw [Rule.solve]; simpa only [hu] using h⟩
  | ok subst =>
    simp only [hu] at h
    obtain ⟨met, hmet, h⟩ := Option.bind_eq_some_iff.mp h
    obtain ⟨depth, hdepth⟩ := exists_depth_meet hmet
    refine ⟨depth, ?_⟩
    rw [Rule.solve]
    simp only [hu, hdepth]
    exact h

/-- The plain recursion finds something for a goal once every rule has been tried. -/
theorem solved_of_tried {tie : TieBreak} {tried : Tried}
    (hrules : tried.map Prod.fst = catalog.rules.filter fun r => r.head.ctor? = goal.ctor?)
    (h : ∀ t ∈ tried, t.1.solve (catalog.solved tie) goal = some t.2) :
    catalog.solved tie goal = some (tried.solution tie goal) := by
  have hdepth : ∃ depth, ∀ t ∈ tried, t.1.solve (catalog.solve tie depth) goal = some t.2 := by
    clear hrules
    induction tried with
    | nil => exact ⟨0, by simp⟩
    | cons t tried ih =>
      obtain ⟨depth, hdepth⟩ := exists_depth_solve (h t List.mem_cons_self)
      obtain ⟨depth', hdepth'⟩ := ih fun x hx => h x (List.mem_cons_of_mem t hx)
      refine ⟨max depth depth', fun x hx => ?_⟩
      rcases List.mem_cons.mp hx with rfl | hx
      · exact rule_solve_mono (fun _ _ => solve_mono (le_max_left _ _)) hdepth
      · exact rule_solve_mono (fun _ _ => solve_mono (le_max_right _ _)) (hdepth' x hx)
  obtain ⟨depth, hdepth⟩ := hdepth
  exact solved_eq_some_iff.mpr ⟨depth + 1, solve_succ.mpr ⟨tried, hrules, hdepth, rfl⟩⟩

theorem meet_isSome {ask : Term → Option Solution} {r : Rule} {subst : Substitution}
    {body : List Requirement} (i : Nat)
    (h : ∀ q ∈ body, ∀ goal, subst.apply q.pattern = .ok goal → (ask goal).isSome) :
    (r.meet ask subst i body).isSome := by
  induction body generalizing i with
  | nil => rfl
  | cons q rest ih =>
    rw [Rule.meet]
    cases ha : subst.apply q.pattern with
    | error v => rfl
    | ok goal =>
      obtain ⟨v, hv⟩ := Option.isSome_iff_exists.mp (h q List.mem_cons_self goal ha)
      obtain ⟨met, hmet⟩ := Option.isSome_iff_exists.mp
        (ih (i + 1) fun x hx => h x (List.mem_cons_of_mem q hx))
      simp only [hv, hmet]
      cases v <;> rfl

/-- The plain recursion ends on every goal from which chains of needs end. -/
theorem Grounded.exists_solved (tie : TieBreak) (h : catalog.Grounded goal) :
    ∃ v, catalog.solved tie goal = some v := by
  induction h with
  | intro goal _ ih =>
    have hrule : ∀ r ∈ catalog.rules, ∃ result, r.solve (catalog.solved tie) goal = some result := by
      intro r hr
      rw [Rule.solve]
      cases hu : unify goal r.head with
      | error reason => exact ⟨_, rfl⟩
      | ok subst =>
        have hbody : (r.meet (catalog.solved tie) subst 0 r.body).isSome := by
          apply meet_isSome
          intro q hq subgoal ha
          obtain ⟨v, hv⟩ := ih subgoal ⟨r, hr, subst, hu, q, hq, ha⟩
          simp [hv]
        obtain ⟨met, hmet⟩ := Option.isSome_iff_exists.mp hbody
        exact ⟨_, by simp only [hmet]; rfl⟩
    obtain ⟨tried, hmap, htried⟩ := exists_tried
      (catalog.rules.filter fun r => r.head.ctor? = goal.ctor?)
      fun r hr => hrule r (List.mem_filter.mp hr).1
    exact ⟨_, solved_of_tried hmap htried⟩

end Catalog

end Clausal
