import Clausal.Proofs.Attempts
import Clausal.Proofs.Cutting
import Clausal.Proofs.Unchained

namespace Clausal

namespace Catalog

/-- Some rule whose head matches a goal asks for another one, and not by a deferrable requirement. -/
def NeedsStrictly (catalog : Catalog) (goal subgoal : Term) : Prop :=
  ∃ r ∈ catalog.rules, ∃ subst, unify goal r.head = .ok subst ∧
    ∃ q ∈ r.body, q.deferrable = false ∧ subst.apply q.pattern = .ok subgoal

/-- From a goal the needs lead to `knot`, and from there back to it, where the last need is a strict
one. -/
structure Ties (catalog : Catalog) (goal knot : Term) : Prop where
  reached : Relation.ReflTransGen catalog.Needs goal knot
  strict : ∃ last, Relation.ReflTransGen catalog.Needs knot last ∧ catalog.NeedsStrictly last knot

variable {catalog : Catalog} {goal subgoal knot : Term}

theorem NeedsStrictly.needs (h : catalog.NeedsStrictly goal subgoal) :
    catalog.Needs goal subgoal := by
  obtain ⟨r, hr, subst, hu, q, hq, _, ha⟩ := h
  exact ⟨r, hr, subst, hu, q, hq, ha⟩

theorem Ties.head (h : catalog.Ties subgoal knot) (hn : catalog.Needs goal subgoal) :
    catalog.Ties goal knot :=
  ⟨.head hn h.reached, h.strict⟩

/-- A goal that is needed strictly while it is under way is a knot. -/
theorem NeedsStrictly.ties (h : catalog.NeedsStrictly goal knot)
    (hr : Relation.ReflTransGen catalog.Needs knot goal) : catalog.Ties goal knot :=
  ⟨.single h.needs, goal, hr, h⟩

end Catalog

/-- If the failure of a goal is that it is on a cycle, there is one, and the rules that match the
goal are named. -/
def Failure.TellsCycle (catalog : Catalog) (goal : Term) (f : Failure) : Prop :=
  ∀ knot chain rules, f = .cyclicRule knot chain rules → catalog.Ties goal knot ∧
    rules = (catalog.rules.filter fun r => goal.fits r.head).map Rule.name ∧ rules ≠ []

/-- The frame has an attempt for each candidate that it is done with, and each goal that these
attempts wait for is needed in a cycle. -/
structure Frame.Waits (catalog : Catalog) (f : Frame) : Prop where
  lists : f.Lists catalog
  ties : ∀ a ∈ f.attempted, ∀ knot, a.cycleGoal? = some knot → catalog.Ties f.goal knot

section

variable {catalog : Catalog} {policy : Policy} {states : States} {depth : Nat} {goal : Term}
  {f top top' : Frame} {chain : GoalChain}

/-- What ends in a cycle names the rules that were found to match, of which there is one. -/
theorem unproved_cyclicRule {attempted : List Attempt} {knot : Term} {above : GoalChain}
    {rules : List String} (h : unproved goal chain attempted = .cyclicRule knot above rules) :
    (∃ a ∈ attempted, a.cycleGoal? = some knot) ∧
      rules = (attempted.filter Attempt.unified).map Attempt.rule ∧ rules ≠ [] := by
  unfold unproved at h
  dsimp only at h
  split at h
  · cases h
  next cycleGoal hc =>
    split at h
    · cases h
      obtain ⟨a, ha, hgoal⟩ := Option.bind_eq_some_iff.mp hc
      have hmem : a ∈ attempted.filter Attempt.unified := List.mem_of_head? ha
      refine ⟨⟨a, (List.mem_filter.mp hmem).1, hgoal⟩, rfl, ?_⟩
      simpa using List.ne_nil_of_mem hmem
    · cases h

/-- A goal that a strict requirement asks for while it is under way, below the frame that asks. -/
theorem Frame.Sound.ties {t : Trial} {r : Requirement} {low : Nat} (hs : top.Sound catalog)
    (hlead : LeadTo catalog states top.goal) (ht : top.trial = some t) (hr : t.next? = some r)
    (ha : t.subst.apply r.pattern = .ok goal)
    (hans : Answers states depth r goal (.error .cycle) low) : catalog.Ties top.goal goal := by
  cases hans with
  | @cycle j id hg hd =>
    obtain ⟨hmem, hu, _, _⟩ := hs.trial t ht
    have hstrict : catalog.NeedsStrictly top.goal goal :=
      ⟨t.rule, hmem, t.subst, hu, r, List.mem_of_getElem? hr, hd, ha⟩
    exact hstrict.ties (hlead goal low id hg)

/-- A failure tells of the cycle that it told of where it is stored. -/
theorem Failure.TellsCycle.shows {stored cause : Failure} {knot : Term} {rules : List String}
    (h : stored.TellsCycle catalog goal) (hshows : stored.Shows cause)
    (hc : cause = .cyclicRule knot chain rules) : catalog.Ties goal knot ∧
      rules = (catalog.rules.filter fun r => goal.fits r.head).map Rule.name ∧ rules ≠ [] := by
  have hsame := hshows.unchained
  rw [hc] at hsame
  cases stored with
  | cyclicRule _ _ _ =>
    cases hsame
    exact h _ _ _ rfl
  | _ => cases hsame

theorem Frame.Waits.progress (h : top.Waits catalog) (hs : top.Sound catalog)
    (hlead : LeadTo catalog states top.goal)
    (hst : ∀ g f, FailsBy states g f → f.TellsCycle catalog g)
    (hp : top.Progress states depth top') : top'.Waits catalog := by
  refine ⟨h.lists.progress hs hp, fun a ha knot hknot => ?_⟩
  rw [hp.same.1]
  rcases hp.attempts ha with hold | ⟨_, hn⟩ | ⟨t, r, goal, low, ht, hr, happ, ⟨rfl, hans⟩ |
    ⟨cause, rfl, hans⟩⟩
  · exact h.ties a hold knot hknot
  · cases hn.symm.trans hknot
  · cases hknot
    exact hs.ties hlead ht hr happ hans
  · cases cause with
    | cyclicRule y chain rules =>
      cases hknot
      rcases hans.failsBy with hd | ⟨f, hf, hshows⟩
      · cases hd
      · obtain ⟨hties, _⟩ := (hst goal f hf).shows hshows rfl
        exact hties.head (hs.needs ht hr happ)
    | _ => cases hknot

/-- What a frame fails by once it has tried all its candidates. -/
theorem Frame.Waits.outcome (hi : catalog.Indexed) (h : f.Waits catalog) (ht : f.trial = none)
    (hr : f.remaining = []) (hc : ¬f.IsCut) {failure : Failure}
    (ho : f.outcome policy chain = .error failure) : failure.TellsCycle catalog f.goal := by
  rintro knot above rules rfl
  rcases f.outcome_cases policy chain with ⟨c, hcut, _, _⟩ | ⟨_, hnone, he⟩ | ⟨_, _, _, he⟩ |
    ⟨_, _, _, he⟩
  · exact absurd ⟨c, hcut⟩ hc
  · simp only [he, Except.error.injEq] at ho
    obtain ⟨⟨a, ha, hknot⟩, hrules, hne⟩ := unproved_cyclicRule ho
    have hmatching := unified_of_isAt (h.lists.ended ht hr hnone)
    rw [hi.filter_candidates] at hmatching
    exact ⟨h.ties a ha knot hknot, hrules.trans (names_of_isAt hmatching), hne⟩
  · cases he.symm.trans ho
  · cases he.symm.trans ho

end

theorem waits_upheld {catalog : Catalog} (hi : catalog.Indexed) (policy : Policy) :
    Upheld catalog policy (fun _ f => f.Waits catalog)
      (fun _ goal f => f.TellsCycle catalog goal) where
  later h := h
  known h := h
  start := ⟨.start, by simp [Frame.start]⟩
  trails := by
    rintro past f f₀ h ht
    refine ⟨h.lists.trails ht, ?_⟩
    rw [ht.goal, ht.attempted]
    exact h.ties
  progress hs hlead hst h hp := h.progress hs hlead hst hp
  fails hcl hc h hv := h.outcome hi hcl.1 hcl.2 hc hv
  takenBack := by
    rintro past s goal f _ _ htaken knot chain rules rfl
    obtain ⟨_, _, _, _, _, _, _, _, _, hconvert⟩ := htaken.converted
    cases hconvert

/-- A cycle is no false alarm. The goal that a call names as needed before it is done is the goal asked
for or is reached from it along the requirements of matching rules, and along such requirements it
reaches itself, by a strict one at last. The rules named are all those that match the goal asked
for, in the order of registration. -/
theorem cycles_are_real {clauses : List (String × Clause)} {catalog : Catalog} {policy : Policy}
    {V : Type} {past : List Search} {s next : Prover V} {budget : Nat} {goal knot : Term}
    {chain : GoalChain} {rules : List String} (hb : Catalog.build clauses = .ok catalog)
    (hs : Session catalog policy past s)
    (h : s.compile budget goal = some (.error (.cyclicRule knot chain rules), next)) :
    Relation.ReflTransGen catalog.Needs goal knot ∧
    (∃ last, Relation.ReflTransGen catalog.Needs knot last ∧ catalog.NeedsStrictly last knot) ∧
    rules = (catalog.rules.filter fun r => goal.fits r.head).map Rule.name ∧ rules ≠ [] := by
  have hi := Catalog.build_indexed hb
  obtain ⟨_, _, hlearnt⟩ := hs.learnt
  obtain ⟨_, _, hnext⟩ := (hs.compile h).learnt
  obtain ⟨stored, hstored, hseen⟩ := s.compile_failsBy hlearnt.clean.aligned h rfl
  obtain ⟨_, _, _, hfails⟩ := ((waits_upheld hi policy).invariant hi).kept.learnt hnext
  obtain ⟨hties, hrules, hne⟩ := (hfails goal stored hstored).shows (.inr ⟨[], hseen⟩) rfl
  exact ⟨hties.reached, hties.strict, hrules, hne⟩

/-- A goal above a cycle of two goals, of which only one needs the other strictly. -/
def hook : List (String × Clause) :=
  [("p", ⟨"hook", .const "Hook", [⟨.const "Ring", false⟩]⟩),
    ("p", ⟨"ring", .const "Ring", [⟨.const "Link", true⟩]⟩),
    ("p", ⟨"link", .const "Link", [⟨.const "Ring", false⟩]⟩)]

def hookCatalog : Catalog where
  rules := [⟨0, "p::hook", .const "Hook", [⟨.const "Ring", false⟩]⟩,
    ⟨1, "p::ring", .const "Ring", [⟨.const "Link", true⟩]⟩,
    ⟨2, "p::link", .const "Link", [⟨.const "Ring", false⟩]⟩]
  index := [("Hook", [0]), ("Ring", [1]), ("Link", [2])]
  arities := [("Hook", 0), ("Ring", 0), ("Link", 0)]

/-- The goal above is told of the cycle below it, by the name of its own rule. -/
theorem hook_hangs_on_ring : ∃ next,
    (Prover.start hookCatalog Policy.default : Prover Unit).compile 20 (.const "Hook") =
      some (.error (.cyclicRule (.const "Ring") [] ["p::hook"]), next) ∧
    Relation.ReflTransGen hookCatalog.Needs (.const "Hook") (.const "Ring") ∧
    (∃ last, Relation.ReflTransGen hookCatalog.Needs (.const "Ring") last ∧
      hookCatalog.NeedsStrictly last (.const "Ring")) ∧
    ["p::hook"] = (hookCatalog.rules.filter fun r => (Term.const "Hook").fits r.head).map
      Rule.name ∧ ["p::hook"] ≠ [] := by
  have hb : Catalog.build hook = .ok hookCatalog := by decide
  have hs : Session hookCatalog Policy.default [] (.start hookCatalog Policy.default) :=
    .start (V := Unit)
  have hany : ((Prover.start hookCatalog Policy.default : Prover Unit).compile 20
      (.const "Hook")).any (fun a => failsWith (fun f => f.kind = "cyclic-rule" ∧
        f.goal = .const "Ring" ∧ f.chain? = some [] ∧ f.candidates = ["p::hook"]) a.1) = true := by
    decide +kernel
  obtain ⟨⟨answer, next⟩, h, hfails⟩ := (Option.any_eq_true _ _).mp hany
  obtain ⟨f, rfl, hf⟩ := exists_of_failsWith hfails
  obtain ⟨hkind, hgoal, hchain, hrules⟩ := of_decide_eq_true hf
  cases f with
  | cyclicRule knot chain rules =>
    obtain rfl : knot = .const "Ring" := hgoal
    obtain rfl : chain = [] := Option.some.inj hchain
    obtain rfl : rules = ["p::hook"] := hrules
    exact ⟨next, h, cycles_are_real hb hs h⟩
  | _ => simp [Failure.kind] at hkind

end Clausal
