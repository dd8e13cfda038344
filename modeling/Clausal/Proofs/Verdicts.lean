import Clausal.Proofs.StackGoals
import Clausal.Proofs.Stability

namespace Clausal

/-- The search for the goal came to the failure, for good or for the time being. -/
def FailsBy (states : States) (goal : Term) (f : Failure) : Prop :=
  ∃ state, states goal = some state ∧ state.outcome? = some (.error f)

/-- All goals under way need the given one, directly or through others. -/
def LeadTo (catalog : Catalog) (states : States) (goal : Term) : Prop :=
  ∀ g j id, states g = some (.inProgress j id) → Relation.ReflTransGen catalog.Needs g goal

/-- The end of the top frame takes the success of a goal back: the frame fails, and a requirement of
the success leads into a goal that has failed. -/
structure Search.TakesBack (policy : Policy) (s : Search) (goal : Term) (f : Failure) : Prop where
  closing : s.Closing
  uncut : ¬s.top.IsCut
  converted : ∃ cause low p chain i e, s.verdict policy = .error cause ∧
    s.ledger.get? goal = some (.provisional low (.ok p) chain) ∧ p.edges[i]? = some e ∧
      f = Spread.convert cause goal chain p i e.goal

theorem FailsBy.of_failed {states : States} {goal : Term} {f : Failure}
    (h : states goal = some (.failed f)) : FailsBy states goal f :=
  ⟨_, h, rfl⟩

theorem FailsBy.of_provisional {states : States} {goal : Term} {f : Failure} {low : Nat}
    {chain : GoalChain} (h : states goal = some (.provisional low (.error f) chain)) :
    FailsBy states goal f :=
  ⟨_, h, rfl⟩

/-- A requirement that fails does so for its depth, or by what its goal is known to have failed by. -/
theorem Answers.failsBy {states : States} {depth low : Nat} {r : Requirement} {goal : Term}
    {cause : Failure} (h : Answers states depth r goal (.error (.failed cause)) low) :
    cause.isDepthExceeded = true ∨ ∃ f, FailsBy states goal f ∧ f.Shows cause := by
  cases h with
  | provisionalFailure hg hshows => exact .inr ⟨_, .of_provisional hg, hshows⟩
  | failed hg hshows _ => exact .inr ⟨_, .of_failed hg, hshows⟩
  | cut _ hd => exact .inl hd

section

variable {catalog : Catalog} {policy : Policy} {frames : List Frame} {states states' : States}

theorem FailsBy.of_push {goal g : Term} {n : Nat} {id : ProofId} {f : Failure}
    (h : FailsBy states' g f)
    (hs : ∀ g, states' g = if g = goal then some (.inProgress n id) else states g) :
    FailsBy states g f := by
  obtain ⟨state, hg, hout⟩ := h
  rw [hs] at hg
  split at hg
  · cases hg
    cases hout
  · exact ⟨state, hg, hout⟩

/-- The goals of a stack lead to the goal of its top frame. -/
theorem Aligned.leadTo {below : List Frame} {top : Frame} (h : Aligned (below ++ [top]) states)
    (hs : ∀ (i : Nat) (f : Frame), (below ++ [top])[i]? = some f → f.Sound catalog) :
    LeadTo catalog states top.goal := by
  intro g j id hg
  obtain ⟨f, hf, rfl, _⟩ := h.inProgress g j id hg
  have hlt : j < (below ++ [top]).length := (List.getElem?_eq_some_iff.mp hf).1
  rw [List.length_append, List.length_singleton] at hlt
  exact h.reaches hs hf getElem?_concat_top (by omega)

end

namespace Search

variable {catalog : Catalog} {policy : Policy} {s : Search} {g : Term} {f failure : Failure}

/-- What is known to have failed once the top frame has ended is its own goal, or had failed before,
or had a success that is taken back. -/
theorem closed_failsBy (ha : Aligned s.stack s.ledger.get?) (hs : s.Closing) (hc : ¬s.top.IsCut)
    (h : FailsBy (s.closed policy) g f) :
    g = s.top.goal ∧ s.verdict policy = .error f ∨ FailsBy s.ledger.get? g f ∨
      s.TakesBack policy g f := by
  obtain ⟨state, hg, hout⟩ := h
  have ho : (s.verdict policy).isDepthExceeded = false := not_verdict_isDepthExceeded hc
  by_cases htop : g = s.top.goal
  · left
    refine ⟨htop, ?_⟩
    rw [htop, closed, keep_top ho] at hg
    split at hg
    · cases hg
      exact Option.some.inj hout
    · cases hv : s.verdict policy <;> rw [hv] at hg <;> cases hg <;> cases hout
      rfl
  · rw [closed, keep_states ha hc ho htop] at hg
    obtain ⟨before, hb, hcl⟩ := Option.bind_eq_some_iff.mp hg
    have hsame : before.outcome? = some (.error f) :=
      (GoalState.outcome?_close? hcl).symm.trans hout
    rcases spread_cases ho g with heq | ⟨low, p, chain, cause, hv, _, hp, i, e, he, hspread⟩
    · exact .inr (.inl ⟨before, heq.symm.trans hb, hsame⟩)
    · cases hspread.symm.trans hb
      cases hsame
      exact .inr (.inr ⟨hs, hc, cause, low, p, chain, i, e, hv, hp, he, rfl⟩)

theorem failsBy_of_cut (hd : failure.isDepthExceeded = true)
    (h : FailsBy (s.spread (.error failure)).get? g f) : FailsBy s.ledger.get? g f := by
  obtain ⟨state, hg, hout⟩ := h
  rcases cut_states (s := s) hd g with ⟨_, hn⟩ | ⟨_, hsame⟩
  · cases hn.symm.trans hg
  · exact ⟨state, hsame.symm.trans hg, hout⟩

theorem leadTo_of_cut (ha : Aligned s.stack s.ledger.get?) (hd : failure.isDepthExceeded = true)
    (hs : ∀ (i : Nat) (f : Frame), s.stack[i]? = some f → f.Sound catalog) {i : Nat} {f₀ : Frame}
    (hf : s.stack[i]? = some f₀) (hi : i + 1 = s.below.length) :
    LeadTo catalog (s.spread (.error failure)).get? f₀.goal := by
  intro g j id hg
  obtain ⟨hold, hj⟩ := (cut_inProgress ha hd).mp hg
  obtain ⟨f, hfj, rfl, _⟩ := ha.inProgress g j id hold
  exact ha.reaches hs hfj hf (by omega)

end Search

/-- A call that fails by a conclusion shows what its goal is known to fail by from then on, as it is
seen from nowhere. -/
theorem Prover.compile_failsBy {V : Type} {s next : Prover V} {budget : Nat} {goal : Term}
    {f : Failure} (ha : Aligned [] s.known.ledger.get?)
    (h : s.compile budget goal = some (.error f, next)) (hf : f.isConclusion = true) :
    ∃ stored, FailsBy next.known.ledger.get? goal stored ∧ f = stored.seenFrom [] := by
  obtain ⟨outcome, known, hp, he, rfl⟩ := compile_outcome h
  obtain rfl : outcome = .error f := by
    cases outcome with
    | ok p => cases he
    | error failure =>
      cases he
      rfl
  have hd : f.isDepthExceeded = false := Failure.not_isDepthExceeded_of_isConclusion hf
  rcases Knowledge.prove_answered ha hp with ⟨_, hnon⟩ | hcut | hanswered
  · cases hnon
    cases hf
  · exact absurd (hd.symm.trans hcut) (by simp)
  · cases hanswered with
    | @failed stored _ hst _ =>
      refine ⟨stored, .of_failed hst, ?_⟩
      have hground : goal.isGround = true := by
        by_contra hn
        have hnon : s.known.prove s.catalog s.policy budget goal =
            some (.error (.nonGroundGoal goal), s.known) := by simp [Knowledge.prove, hn]
        cases hnon.symm.trans hp
        cases hf
      -- The same call once more is answered from what is known.
      obtain ⟨state, hstate, hagain⟩ := Knowledge.prove_again ha hground hp hd
      have hsame : known.prove s.catalog s.policy 0 goal =
          some (.error (stored.seenFrom []), { known with ledger := known.ledger.hit }) := by
        simp [Knowledge.prove, hground, hst]
      have hanswer := hsame.symm.trans (hagain known hstate 0)
      simp only [Option.some.injEq, Prod.mk.injEq, Except.error.injEq] at hanswer
      exact hanswer.1.symm

/-- The answer is a failure of a kind. -/
def failsWith (p : Failure → Bool) : Except Failure Plan → Bool
  | .ok _ => false
  | .error f => p f

theorem exists_of_failsWith {p : Failure → Bool} {answer : Except Failure Plan}
    (h : failsWith p answer = true) : ∃ f, answer = .error f ∧ p f = true := by
  cases answer with
  | ok plan => cases h
  | error f => exact ⟨f, rfl, h⟩

/-- A property of frames, and one of the failures by which goals are known to fail, that every way
for a search to get on keeps. -/
structure Upheld (catalog : Catalog) (policy : Policy) (G : List Search → Frame → Prop)
    (F : List Search → Term → Failure → Prop) : Prop where
  later : ∀ {past s f}, G past f → G (past ++ [s]) f
  known : ∀ {past s goal f}, F past goal f → F (past ++ [s]) goal f
  start : ∀ {past depth goal id}, G past (Frame.start catalog depth goal id)
  trails : ∀ {past f f₀}, G past f₀ → f.Trails f₀ → G past f
  progress : ∀ {past depth top top' states}, top.Sound catalog → LeadTo catalog states top.goal →
    (∀ g f, FailsBy states g f → F past g f) → G past top → top.Progress states depth top' →
    G past top'
  fails : ∀ {past} {s : Search} {f}, s.Closing → ¬s.top.IsCut → G past s.top →
    s.verdict policy = .error f → F (past ++ [s]) s.top.goal f
  takenBack : ∀ {past} {s : Search} {goal f}, ProofGraph catalog s.stack s.ledger.get? s.table →
    (∀ cause, s.verdict policy = .error cause → F (past ++ [s]) s.top.goal cause) →
    s.TakesBack policy goal f → F (past ++ [s]) goal f

theorem Upheld.invariant {catalog : Catalog} {policy : Policy} {G : List Search → Frame → Prop}
    {F : List Search → Term → Failure → Prop} (h : Upheld catalog policy G F)
    (hi : catalog.Indexed) : Invariant catalog policy fun past frames states table =>
      ProofGraph catalog frames states table ∧ (∀ f ∈ frames, G past f) ∧
        ∀ g f, FailsBy states g f → F past g f where
  nothing := ⟨.empty, by simp, by simp [FailsBy]⟩
  forget hk := ⟨hk.1.forget, by simp, by simp [FailsBy]⟩
  past hk := ⟨hk.1, fun f hf => h.later (hk.2.1 f hf), fun g f hg => h.known (hk.2.2 g f hg)⟩
  push := by
    rintro past frames states states' table goal _ ⟨hg, hf, hst⟩ hn hs _
    refine ⟨hg.push hi hn hs, fun f hmem => ?_, fun g f hfails => hst g f (hfails.of_push hs)⟩
    rcases List.mem_append.mp hmem with hmem | hmem
    · exact hf f hmem
    · rw [List.mem_singleton.mp hmem]
      exact h.start
  progress := by
    rintro past below top top' states table ha ⟨hg, hf, hst⟩ hp
    have hsound : top.Sound catalog := hg.numbered.sound _ _ getElem?_concat_top
    refine ⟨hg.progress ha hp, fun f hmem => ?_, hst⟩
    rcases List.mem_append.mp hmem with hmem | hmem
    · exact hf f (List.mem_append_left _ hmem)
    · rw [List.mem_singleton.mp hmem]
      exact h.progress hsound (ha.leadTo hg.numbered.sound) hst (hf top (by simp)) hp
  refer := by
    rintro past frames states table j ⟨hg, hf, hst⟩
    refine ⟨hg.refer j, fun f hmem => ?_, hst⟩
    obtain ⟨i, hi⟩ := List.mem_iff_getElem?.mp hmem
    obtain ⟨f₀, hf₀, htwin⟩ := getElem?_refer hi
    exact h.trails (hf f₀ (List.mem_of_getElem? hf₀)) htwin.trails
  keep := by
    rintro past s ha ⟨hg, hf, hst⟩ ht hr hc ho
    have hfails : ∀ cause, s.verdict policy = .error cause → F (past ++ [s]) s.top.goal cause :=
      fun cause hv => h.fails ⟨ht, hr⟩ hc (hf s.top (by simp [Search.stack])) hv
    refine ⟨hg.keep ha ht hc ho, fun f hmem => ?_, fun g f hknown => ?_⟩
    · obtain ⟨i, hi⟩ := List.mem_iff_getElem?.mp hmem
      obtain ⟨f₀, hf₀, _, htrails, _⟩ := Search.keep_lowered ha ho hi
      exact h.later (h.trails (hf f₀ (List.mem_of_getElem? hf₀)) htrails)
    · rcases s.closed_failsBy ha ⟨ht, hr⟩ hc hknown with ⟨rfl, hv⟩ | hold | htaken
      · exact hfails f hv
      · exact h.known (hst g f hold)
      · exact h.takenBack hg hfails htaken
  cut := by
    rintro past s failure frames ha ⟨hg, hf, hst⟩ ht _ hc _ hd hcuts
    have hold : ∀ g f, FailsBy (s.spread (.error failure)).get? g f → F past g f :=
      fun g f hknown => hst g f (Search.failsBy_of_cut hd hknown)
    refine ⟨hg.cut ha ht hd hcuts, fun f hmem => ?_, fun g f hknown => h.known (hold g f hknown)⟩
    obtain ⟨i, hi⟩ := List.mem_iff_getElem?.mp hmem
    obtain ⟨_, f₀, hf₀, hcase⟩ := hcuts.earlier hi
    have hin : s.stack[i]? = some f₀ := getElem?_concat_below hf₀
    have hbefore : G past f₀ := hf f₀ (List.mem_of_getElem? hin)
    rcases hcase with rfl | ⟨hlast, hp⟩
    · exact h.later hbefore
    -- The frame below the one that is cut short gets on by the failure that it is handed.
    · have hlead := Search.leadTo_of_cut ha hd hg.numbered.sound hin hlast
      exact h.later (h.progress (hg.numbered.sound i f₀ hin) hlead hold hbefore hp)

end Clausal
