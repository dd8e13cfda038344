import Clausal.Proofs.Attempts
import Clausal.Proofs.Causes
import Clausal.Proofs.Cutting

namespace Clausal

/-- A failure of which the cause is that no rule resolves the goal lists an attempt at each candidate
of the goal, in order. -/
def Failure.Complete (catalog : Catalog) : Failure → Prop
  | .noRule goal _ attempted =>
    attempted.map Attempt.rule = (catalog.candidates goal).map Rule.name
  | _ => True

/-- A failure that lists one attempt, at a candidate of its goal. -/
def Failure.Lone (catalog : Catalog) (f : Failure) : Prop :=
  ∃ a, f.attempts = [a] ∧ ∃ r ∈ catalog.candidates f.goal, a.rule = r.name

/-- The failure is the one, but for its chains, that a goal has once the end of the top frame takes the
goal's success back. -/
def Search.Retracts (policy : Policy) (s : Search) (f : Failure) : Prop :=
  ∃ goal g, s.TakesBack policy goal g ∧ f.unchained = g.unchained

/-- The failure stands for a success that some search state took back. -/
def Failure.Retracted (policy : Policy) (past : List Search) (f : Failure) : Prop :=
  ∃ e ∈ past, e.Retracts policy f

/-- The failure lists all candidates, or it stands for a success that was taken back. -/
def Failure.Accounted (catalog : Catalog) (policy : Policy) (past : List Search) (f : Failure) :
    Prop :=
  f.Complete catalog ∨ f.Lone catalog ∧ f.Retracted policy past

/-- What stands for a success taken back lists one attempt, with the failure of the frame that took
it back. -/
theorem Search.TakesBack.shows {policy : Policy} {s : Search} {goal : Term} {f g cause : Failure}
    (h : s.TakesBack policy goal g) (hv : s.verdict policy = .error cause)
    (he : f.unchained = g.unchained) : ∃ a shown, f.attempts = [a] ∧ a.cause? = some shown ∧
      shown.unchained = cause.unchained := by
  obtain ⟨cause', low, p, chain, i, e, hv', _, _, rfl⟩ := h.converted
  obtain rfl : cause' = cause := Except.error.inj (hv'.symm.trans hv)
  have hattempts := congrArg Failure.attempts he
  rw [Failure.attempts_unchained, Failure.attempts_unchained] at hattempts
  obtain ⟨a, ha, hsame⟩ := List.map_eq_singleton_iff.mp hattempts
  have hcause := congrArg Attempt.cause? hsame
  rw [Attempt.cause?_unchained] at hcause
  obtain ⟨shown, hshown, hunchained⟩ := Option.map_eq_some_iff.mp hcause
  exact ⟨a, shown, ha, hshown, hunchained⟩

theorem Search.Retracts.attempts {policy : Policy} {s : Search} {f : Failure}
    (h : s.Retracts policy f) : ∃ a, f.attempts = [a] := by
  obtain ⟨goal, taken, htaken, he⟩ := h
  obtain ⟨cause, _, _, _, _, _, hv, _⟩ := htaken.converted
  obtain ⟨a, _, ha, _⟩ := htaken.shows hv he
  exact ⟨a, ha⟩

section

variable {catalog : Catalog} {policy : Policy} {past : List Search} {states : States} {depth : Nat}
  {f g cause : Failure} {top top' : Frame} {s : Search} {goal : Term}

namespace Failure

theorem attempts_map_rule (he : f.unchained = g.unchained) :
    f.attempts.map Attempt.rule = g.attempts.map Attempt.rule := by
  have rules : ∀ f : Failure, f.unchained.attempts.map Attempt.rule = f.attempts.map Attempt.rule := by
    intro f
    rw [attempts_unchained, List.map_map]
    exact List.map_congr_left fun a _ => a.rule_unchained
  rw [← rules f, he, rules g]

theorem goal_eq_of_unchained (he : f.unchained = g.unchained) : f.goal = g.goal := by
  rw [← goal_unchained f, he, goal_unchained]

theorem Complete.of_unchained (h : f.Complete catalog) (he : f.unchained = g.unchained) :
    g.Complete catalog := by
  have hrules := attempts_map_rule he
  cases g with
  | noRule goal chain attempted =>
    cases f with
    | noRule _ _ _ =>
      obtain rfl := goal_eq_of_unchained he
      exact hrules.symm.trans h
    | _ => cases he
  | _ => trivial

theorem Lone.of_unchained (h : f.Lone catalog) (he : f.unchained = g.unchained) :
    g.Lone catalog := by
  obtain ⟨a, ha, r, hr, hname⟩ := h
  have hrules := attempts_map_rule he
  rw [ha] at hrules
  obtain ⟨b, hb, hrule⟩ := List.map_eq_singleton_iff.mp hrules.symm
  exact ⟨b, hb, r, goal_eq_of_unchained he ▸ hr, hrule.trans hname⟩

theorem Complete.one_candidate {a : Attempt} (h : f.Complete catalog) (ha : f.attempts = [a]) :
    (catalog.candidates f.goal).length = 1 := by
  cases f with
  | noRule goal chain attempted =>
    obtain rfl : attempted = [a] := ha
    have hlength : [a.rule].length = ((catalog.candidates goal).map Rule.name).length :=
      congrArg List.length h
    rw [List.length_map] at hlength
    exact hlength.symm
  | _ => cases ha

theorem Lone.complete (h : f.Lone catalog) (hone : (catalog.candidates f.goal).length = 1) :
    f.Complete catalog := by
  obtain ⟨a, ha, r, hr, hname⟩ := h
  cases f with
  | noRule goal chain attempted =>
    obtain rfl : attempted = [a] := ha
    obtain ⟨only, honly⟩ := List.length_eq_one_iff.mp hone
    have hcandidates : catalog.candidates goal = [only] := honly
    have hr : r ∈ catalog.candidates goal := hr
    rw [hcandidates] at hr
    obtain rfl := List.mem_singleton.mp hr
    simp [Complete, hcandidates, hname]
  | _ => trivial

theorem Retracted.of_unchained (h : f.Retracted policy past) (he : f.unchained = g.unchained) :
    g.Retracted policy past := by
  obtain ⟨e, hmem, goal, taken, htaken, hf⟩ := h
  exact ⟨e, hmem, goal, taken, htaken, he.symm.trans hf⟩

theorem Retracted.later (h : f.Retracted policy past) (s : Search) :
    f.Retracted policy (past ++ [s]) := by
  obtain ⟨e, hmem, hretracts⟩ := h
  exact ⟨e, List.mem_append_left _ hmem, hretracts⟩

theorem Accounted.of_unchained (h : f.Accounted catalog policy past)
    (he : f.unchained = g.unchained) : g.Accounted catalog policy past :=
  h.imp (fun hc => hc.of_unchained he)
    fun hr => ⟨hr.1.of_unchained he, hr.2.of_unchained he⟩

theorem Accounted.later (h : f.Accounted catalog policy past) (s : Search) :
    f.Accounted catalog policy (past ++ [s]) :=
  h.imp_right fun hr => ⟨hr.1, hr.2.later s⟩

/-- A failure that lists no attempt has nothing to leave out, unless no rule resolves its goal. -/
theorem complete_of_ne_noRule (h : ∀ goal chain attempted, f ≠ .noRule goal chain attempted) :
    f.Complete catalog := by
  cases f with
  | noRule goal chain attempted => exact absurd rfl (h goal chain attempted)
  | _ => trivial

theorem throughout_of_ne_noRule (h : ∀ goal chain attempted, f ≠ .noRule goal chain attempted) :
    f.Throughout (Accounted catalog policy past) := by
  refine throughout_iff.mpr ⟨.inl (complete_of_ne_noRule h), fun a ha => ?_⟩
  cases f with
  | noRule goal chain attempted => exact absurd rfl (h goal chain attempted)
  | _ => cases ha

theorem Shows.accounted (hshows : f.Shows cause) (h : f.Throughout (Accounted catalog policy past)) :
    cause.Throughout (Accounted catalog policy past) :=
  h.of_unchained (fun _ _ he h => h.of_unchained he) hshows.unchained.symm

end Failure

/-- The frame lists its candidates, and so does all that it blames, as far as nothing was taken
back. -/
structure Frame.Accounts (catalog : Catalog) (policy : Policy) (past : List Search) (f : Frame) :
    Prop where
  lists : f.Lists catalog
  blames : ∀ cause, f.Blames cause → cause.Throughout (Failure.Accounted catalog policy past)

theorem Frame.Accounts.progress (h : top.Accounts catalog policy past) (hs : top.Sound catalog)
    (hst : ∀ g f, FailsBy states g f → f.Throughout (Failure.Accounted catalog policy past))
    (hp : top.Progress states depth top') : top'.Accounts catalog policy past := by
  refine ⟨h.lists.progress hs hp, fun cause hb => ?_⟩
  rcases hp.blames hb with hold | ⟨t, r, goal, low, _, _, _, hans⟩
  · exact h.blames cause hold
  · rcases hans.failsBy with hd | ⟨f, hf, hshows⟩
    · refine Failure.throughout_of_ne_noRule fun _ _ _ he => ?_
      rw [he] at hd
      cases hd
    · exact hshows.accounted (hst goal f hf)

/-- A frame that has tried all its candidates lists them all when it fails. -/
theorem Frame.Accounts.outcome {f : Frame} {chain : GoalChain} {failure : Failure}
    (h : f.Accounts catalog policy past) (ht : f.trial = none) (hr : f.remaining = [])
    (hc : ¬f.IsCut) (ho : f.outcome policy chain = .error failure) :
    failure.Throughout (Failure.Accounted catalog policy past) := by
  rcases f.outcome_cases policy chain with ⟨c, hcut, _, _⟩ | ⟨_, hnone, he⟩ | ⟨_, _, _, he⟩ |
    ⟨_, _, _, he⟩
  · exact absurd ⟨c, hcut⟩ hc
  · cases he.symm.trans ho
    rcases unproved_cases f.goal chain f.attempted with hun | ⟨knot, rules, hun⟩
    · rw [hun]
      refine Failure.throughout_iff.mpr ⟨.inl ?_, fun a ha cause hcause => ?_⟩
      · exact names_of_isAt (h.lists.ended ht hr hnone)
      · exact h.blames cause ⟨a, ha, hcause⟩
    · rw [hun]
      exact Failure.throughout_of_ne_noRule (by simp)
  · cases he.symm.trans ho
    exact Failure.throughout_of_ne_noRule (by simp)
  · cases he.symm.trans ho

theorem Search.TakesBack.retracted (h : s.TakesBack policy goal f) :
    f.Retracted policy (past ++ [s]) :=
  ⟨s, by simp, goal, f, h, rfl⟩

/-- A success that is taken back leaves the attempt at its own rule. -/
theorem Search.TakesBack.accounted (hi : catalog.Indexed) (h : s.TakesBack policy goal f)
    (hg : ProofGraph catalog s.stack s.ledger.get? s.table)
    (hcause : ∀ cause, s.verdict policy = .error cause →
      cause.Throughout (Failure.Accounted catalog policy (past ++ [s]))) :
    f.Throughout (Failure.Accounted catalog policy (past ++ [s])) := by
  obtain ⟨cause, low, p, chain, i, e, hv, hp, _, rfl⟩ := h.converted
  obtain ⟨rfl, hid, _⟩ := hg.warranted.provisional goal low p chain hp
  obtain ⟨r, subst, hfits⟩ := hg.sound.fits p.id p hid
  have hcandidate : r ∈ catalog.candidates p.goal := hi.mem_candidates hfits.mem hfits.unify
  refine Failure.throughout_iff.mpr ⟨.inr ⟨?_, h.retracted⟩, ?_⟩
  · exact ⟨_, rfl, r, hcandidate, hfits.name⟩
  · intro a ha cause' hc
    obtain rfl := List.mem_singleton.mp ha
    cases hc
    exact hcause cause hv

end

theorem accounts_upheld {catalog : Catalog} (hi : catalog.Indexed) (policy : Policy) :
    Upheld catalog policy (fun past f => f.Accounts catalog policy past)
      (fun past _ f => f.Throughout (Failure.Accounted catalog policy past)) where
  later h := ⟨h.lists, fun cause hb => (h.blames cause hb).mono fun _ ha => ha.later _⟩
  known h := h.mono fun _ ha => ha.later _
  start := ⟨.start, by simp [Frame.Blames, Frame.start]⟩
  trails := by
    rintro past f f₀ h ht
    refine ⟨h.lists.trails ht, ?_⟩
    unfold Frame.Blames
    rw [ht.attempted]
    exact h.blames
  progress hs _ hst h hp := h.progress hs hst hp
  fails hcl hc h hv := (h.outcome hcl.1 hcl.2 hc hv).mono fun _ ha => ha.later _
  takenBack hg hcause h := h.accounted hi hg hcause

/-- The failure of a call, and each failure that it tells of, lists an attempt at each candidate of its
goal unless it stands for a success that some step took back. Then it lists the rule of that success
only, which is all of them if the goal has one candidate. -/
theorem candidates_listed_iff {clauses : List (String × Clause)} {catalog : Catalog}
    {policy : Policy} {V : Type} {past : List Search} {s next : Prover V} {budget : Nat}
    {goal : Term} {f : Failure} (hb : Catalog.build clauses = .ok catalog)
    (hs : Session catalog policy past s)
    (h : s.compile budget goal = some (.error f, next)) (level : Nat) (inner : Failure)
    (ht : f.Tells level inner) : inner.Complete catalog ↔
      (inner.Retracted policy (past ++ s.known.trace catalog policy budget goal) →
        (catalog.candidates inner.goal).length = 1) := by
  have hi := Catalog.build_indexed hb
  obtain ⟨_, _, hlearnt⟩ := hs.learnt
  obtain ⟨_, _, hnext⟩ := (hs.compile h).learnt
  have hall : f.Throughout (Failure.Accounted catalog policy
      (past ++ s.known.trace catalog policy budget goal)) := by
    by_cases hf : f.isConclusion = true
    · obtain ⟨stored, hstored, hseen⟩ := s.compile_failsBy hlearnt.clean.aligned h hf
      obtain ⟨_, _, _, hfails⟩ := ((accounts_upheld hi policy).invariant hi).kept.learnt hnext
      have hshows : stored.Shows f := .inr ⟨[], hseen⟩
      exact hshows.accounted (hfails goal stored hstored)
    · refine Failure.throughout_of_ne_noRule fun _ _ _ he => hf ?_
      rw [he]
      rfl
  constructor
  · rintro hcomplete ⟨e, _, hretracts⟩
    obtain ⟨a, ha⟩ := hretracts.attempts
    exact hcomplete.one_candidate ha
  · intro hone
    rcases hall level inner ht with hcomplete | ⟨hlone, hretracted⟩
    · exact hcomplete
    · exact hlone.complete (hone hretracted)

/-- An outer goal that asks for an inner one, of which one rule leads back and one to nothing. -/
def slip : List (String × Clause) :=
  [("p", ⟨"outer", .const "Outer", [⟨.const "Inner", true⟩, ⟨.const "Missing", false⟩]⟩),
    ("p", ⟨"inner_later", .const "Inner", [⟨.const "Outer", true⟩]⟩),
    ("p", ⟨"inner", .const "Inner", [⟨.const "Absent", false⟩]⟩)]

def slipCatalog : Catalog where
  rules := [⟨0, "p::outer", .const "Outer", [⟨.const "Inner", true⟩, ⟨.const "Missing", false⟩]⟩,
    ⟨1, "p::inner_later", .const "Inner", [⟨.const "Outer", true⟩]⟩,
    ⟨2, "p::inner", .const "Inner", [⟨.const "Absent", false⟩]⟩]
  index := [("Outer", [0]), ("Inner", [1, 2])]
  arities := [("Outer", 0), ("Inner", 0), ("Missing", 0), ("Absent", 0)]

theorem build_slip : Catalog.build slip = .ok slipCatalog := by decide

/-- After a call for the outer goal, the inner one fails with one of its two candidates listed. -/
theorem slip_compile_inner : ∃ past, ∃ s next : Prover Unit, ∃ f,
    Session slipCatalog Policy.default past s ∧
      s.compile 0 (.const "Inner") = some (.error f, next) ∧
      f.kind = "no-rule" ∧ f.goal = .const "Inner" ∧
      f.attempts.map Attempt.rule = ["p::inner_later"] := by
  have hany : ((Prover.start slipCatalog Policy.default : Prover Unit).compile 20
      (.const "Outer")).any (fun a => (a.2.compile 0 (.const "Inner")).any fun b =>
        failsWith (fun f => f.kind = "no-rule" ∧ f.goal = .const "Inner" ∧
          f.attempts.map Attempt.rule = ["p::inner_later"]) b.1) = true := by decide +kernel
  obtain ⟨⟨outer, s⟩, houter, hsecond⟩ := (Option.any_eq_true _ _).mp hany
  obtain ⟨⟨answer, next⟩, hinner, hfails⟩ := (Option.any_eq_true _ _).mp hsecond
  have hs : Session slipCatalog Policy.default _ s := .compile .start houter
  obtain ⟨f, rfl, hf⟩ := exists_of_failsWith hfails
  exact ⟨_, s, next, f, hs, hinner, of_decide_eq_true hf⟩

/-- The second rule of the inner goal is not listed, although no rule resolves the goal. -/
theorem slip_omits_candidate : Catalog.build slip = .ok slipCatalog ∧
    ∃ past, ∃ s next : Prover Unit, ∃ budget f, Session slipCatalog Policy.default past s ∧
      s.compile budget (.const "Inner") = some (.error f, next) ∧
      f.kind = "no-rule" ∧ f.goal = .const "Inner" ∧
      f.attempts.map Attempt.rule = ["p::inner_later"] ∧
      (slipCatalog.candidates (.const "Inner")).map Rule.name = ["p::inner_later", "p::inner"] := by
  obtain ⟨past, s, next, f, hs, hc, hkind, hgoal, hrules⟩ := slip_compile_inner
  exact ⟨build_slip, past, s, next, 0, f, hs, hc, hkind, hgoal, hrules, by decide⟩

/-- The inner goal had succeeded for the time being, which the end of the outer one took back. -/
theorem slip_retracts_inner : ∃ past, ∃ s next : Prover Unit, ∃ budget f,
    Session slipCatalog Policy.default past s ∧
      s.compile budget (.const "Inner") = some (.error f, next) ∧
      f.Retracted Policy.default
        (past ++ s.known.trace slipCatalog Policy.default budget (.const "Inner")) := by
  obtain ⟨past, s, next, f, hs, hc, hkind, hgoal, hrules⟩ := slip_compile_inner
  refine ⟨past, s, next, 0, f, hs, hc, ?_⟩
  by_contra hnone
  have hcomplete := (candidates_listed_iff build_slip hs hc 0 f (.self f)).mpr
    fun hretracts => absurd hretracts hnone
  cases f with
  | noRule goal chain attempted =>
    obtain rfl : goal = .const "Inner" := hgoal
    have hnames : ["p::inner_later"] =
        (slipCatalog.candidates (.const "Inner")).map Rule.name := hrules.symm.trans hcomplete
    exact absurd hnames (by decide)
  | _ => simp [Failure.kind] at hkind

end Clausal
