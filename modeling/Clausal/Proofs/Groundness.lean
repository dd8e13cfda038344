import Clausal.Proofs.Course
import Clausal.Proofs.Registration
import Clausal.Proofs.Unchained

namespace Clausal

mutual

/-- The failure tells of a variable that was left open, or lists an attempt that does, at whatever
level. -/
def Failure.leavesOpen : Failure → Bool
  | .noRule _ _ attempted => Failure.anyLeavesOpen attempted
  | .nonGroundGoal _ => true
  | .ambiguous _ _ _ => false
  | .cyclicRule _ _ _ => false
  | .depthExceeded _ _ _ => false
  | .invocation _ _ _ => false
  | .valueType _ _ => false

def Failure.anyLeavesOpen : List Attempt → Bool
  | [] => false
  | a :: rest => a.leavesOpen || Failure.anyLeavesOpen rest

def Attempt.leavesOpen : Attempt → Bool
  | .mismatch _ reason => decide (reason.cause = .notGround)
  | .unbound _ _ => true
  | .cycle _ _ _ => false
  | .subgoal _ _ _ cause => cause.leavesOpen

end

theorem Failure.anyLeavesOpen_eq_false {attempted : List Attempt} :
    Failure.anyLeavesOpen attempted = false ↔ ∀ a ∈ attempted, a.leavesOpen = false := by
  induction attempted with
  | nil => simp [Failure.anyLeavesOpen]
  | cons a rest ih => simp [Failure.anyLeavesOpen, ih]

mutual

theorem Failure.leavesOpen_unchained : (f : Failure) → f.unchained.leavesOpen = f.leavesOpen
  | .noRule _ _ attempted => by
    simp only [Failure.unchained, Failure.leavesOpen, Failure.anyLeavesOpen_unchained attempted]
  | .nonGroundGoal _ => rfl
  | .ambiguous _ _ _ => rfl
  | .cyclicRule _ _ _ => rfl
  | .depthExceeded _ _ _ => rfl
  | .invocation _ _ _ => rfl
  | .valueType _ _ => rfl

theorem Failure.anyLeavesOpen_unchained : (attempted : List Attempt) →
    Failure.anyLeavesOpen (Failure.unchainedAttempts attempted) = Failure.anyLeavesOpen attempted
  | [] => rfl
  | a :: rest => by
    simp only [Failure.unchainedAttempts, Failure.anyLeavesOpen, Attempt.leavesOpen_unchained a,
      Failure.anyLeavesOpen_unchained rest]

theorem Attempt.leavesOpen_unchained : (a : Attempt) → a.unchained.leavesOpen = a.leavesOpen
  | .mismatch _ _ => rfl
  | .unbound _ _ => rfl
  | .cycle _ _ _ => rfl
  | .subgoal _ _ _ cause => by
    simp only [Attempt.unchained, Attempt.leavesOpen, Failure.leavesOpen_unchained cause]

end

theorem Failure.Shows.leavesOpen {f cause : Failure} (h : f.Shows cause) :
    cause.leavesOpen = f.leavesOpen := by
  rw [← cause.leavesOpen_unchained, h.unchained, f.leavesOpen_unchained]

theorem Failure.not_leavesOpen_of_isDepthExceeded {f : Failure} (h : f.isDepthExceeded = true) :
    f.leavesOpen = false := by
  cases f with
  | depthExceeded goal chain limit => rfl
  | _ => cases h

/-- The body of each rule has the variables of its head only. -/
def Catalog.Bound (catalog : Catalog) : Prop :=
  ∀ r ∈ catalog.rules, ∀ q ∈ r.body, ∀ v, q.pattern.Contains (.var v) → r.head.Contains (.var v)

theorem Catalog.bound_of_build {clauses : List (String × Clause)} {catalog : Catalog}
    (h : build clauses = .ok catalog) : catalog.Bound := by
  intro r hr
  have hreg := registered_of_build h
  obtain ⟨id, e, he, rfl⟩ := hreg.mem_rules.mp hr
  exact hreg.wellFormed.bound e (List.mem_of_getElem? he)

section

variable {catalog : Catalog} {goal : Term} {r : Rule} {subst : Substitution}

theorem isTotalOver_of_unify (h : unify goal r.head = .ok subst) :
    subst.isTotalOver r.params = true :=
  Substitution.isTotalOver_iff.mpr fun _ hv => (unify_binds h).1 ▸ hv

/-- A rule whose head matches a goal makes ground goals of its requirements. -/
theorem Catalog.Bound.apply (h : catalog.Bound) (hr : r ∈ catalog.rules)
    (hu : unify goal r.head = .ok subst) {q : Requirement} (hq : q ∈ r.body) :
    ∃ sub, subst.apply q.pattern = .ok sub ∧ sub.isGround = true := by
  obtain ⟨hd, he⟩ := unify_binds hu
  have hhead : ∀ v ∈ q.pattern.occurrences, v ∈ r.head.occurrences := fun v hv =>
    Term.mem_occurrences.mpr (h r hr q hq v (Term.mem_occurrences.mp hv))
  have hground : (r.head.under subst.value).isGround = true := he ▸ unify_isGround hu
  have hvalues := Term.isGround_under.mp hground
  exact ⟨_, Substitution.apply_of_domain q.pattern fun v hv => hd ▸ Term.mem_vars.mpr (hhead v hv),
    Term.isGround_under.mpr fun v hv => hvalues v (hhead v hv)⟩

end

/-- The frame has attempted nothing that leaves a variable open. -/
def Frame.Sealed (f : Frame) : Prop :=
  ∀ a ∈ f.attempted, a.leavesOpen = false

/-- The goal is ground, and the failure that is known of it, if one is, leaves no variable open. -/
def GoalState.Sealed (goal : Term) (state : GoalState) : Prop :=
  goal.isGround = true ∧ ∀ f, state.outcome? = some (.error f) → f.leavesOpen = false

section

variable {catalog : Catalog} {states : States} {depth : Nat} {f f₀ top top' : Frame}

theorem Frame.Sealed.congr (h : f₀.Sealed) (he : f.attempted = f₀.attempted) : f.Sealed :=
  fun a ha => h a (he ▸ ha)

theorem Frame.Sealed.concat {attempt : Attempt} (h : f₀.Sealed)
    (he : f.attempted = f₀.attempted ++ [attempt]) (ha : attempt.leavesOpen = false) :
    f.Sealed := by
  intro a hmem
  rw [he] at hmem
  rcases List.mem_append.mp hmem with hmem | hmem
  · exact h a hmem
  · rw [List.mem_singleton.mp hmem]
    exact ha

theorem Answers.leavesOpen {r : Requirement} {goal : Term} {cause : Failure} {low : Nat}
    (h : Answers states depth r goal (.error (.failed cause)) low)
    (hst : ∀ g state, states g = some state → state.Sealed g) : cause.leavesOpen = false := by
  cases h with
  | provisionalFailure hg hshows => exact hshows.leavesOpen.trans ((hst _ _ hg).2 _ rfl)
  | failed hg hshows _ => exact hshows.leavesOpen.trans ((hst _ _ hg).2 _ rfl)
  | cut _ hd => exact Failure.not_leavesOpen_of_isDepthExceeded hd

theorem Frame.Sound.asks (hs : f.Sound catalog) (hb : catalog.Bound) {t : Trial}
    {r : Requirement} (ht : f.trial = some t) (hr : t.next? = some r) :
    ∃ sub, t.subst.apply r.pattern = .ok sub ∧ sub.isGround = true := by
  obtain ⟨hmem, hu, _, _⟩ := hs.trial t ht
  exact hb.apply hmem hu (List.mem_of_getElem? hr)

theorem Frame.Sealed.progress (h : top.Sealed) (hb : catalog.Bound) (hs : top.Sound catalog)
    (hg : top.goal.isGround = true) (hst : ∀ g state, states g = some state → state.Sealed g)
    (hp : top.Progress states depth top') : top'.Sealed := by
  cases hp with
  | tried ht hr =>
    unfold tryRule
    split
    · exact h.congr rfl
    next reason hu => exact h.concat rfl (decide_eq_false (unify_error hg hu))
  | succeeded ht hn => exact h.congr rfl
  | unbound ht hr hv =>
    obtain ⟨sub, ha, _⟩ := hs.asks hb ht hr
    cases hv.symm.trans ha
  | @received t r goal answer low ht hr ha hans =>
    unfold receive
    rw [ht]
    cases answer with
    | ok link => exact h.congr rfl
    | error blocked =>
      cases blocked with
      | cycle => exact h.concat rfl rfl
      | failed cause => exact h.concat rfl (hans.leavesOpen hst)

theorem unproved_leavesOpen {attempted : List Attempt} (h : ∀ a ∈ attempted, a.leavesOpen = false)
    (goal : Term) (chain : GoalChain) : (unproved goal chain attempted).leavesOpen = false := by
  rcases unproved_cases goal chain attempted with he | ⟨_, _, he⟩
  · rw [he]
    exact Failure.anyLeavesOpen_eq_false.mpr h
  · rw [he]
    rfl

theorem Frame.Sealed.outcome {policy : Policy} {chain : GoalChain} {failure : Failure}
    (h : f.Sealed) (ho : f.outcome policy chain = .error failure) :
    failure.leavesOpen = false := by
  rcases f.outcome_cases policy chain with ⟨_, _, hd, he⟩ | ⟨_, _, he⟩ | ⟨_, _, _, he⟩ |
    ⟨_, _, _, he⟩
  · cases he.symm.trans ho
    exact Failure.not_leavesOpen_of_isDepthExceeded hd
  · cases he.symm.trans ho
    exact unproved_leavesOpen h _ _
  · cases he.symm.trans ho
    rfl
  · cases he.symm.trans ho

end

/-- All goals are ground, and no frame has attempted and no goal is known to fail by what leaves a
variable open. -/
structure Sealed (frames : List Frame) (states : States) : Prop where
  frames : ∀ f ∈ frames, f.Sealed
  states : ∀ g state, states g = some state → state.Sealed g

/-- The goals for which searches were begun are ground. -/
def GroundRoots (past : List Search) (frames : List Frame) : Prop :=
  (∀ e ∈ past, ∀ g, e.root? = some g → g.isGround = true) ∧
    ∀ g, frames[0]?.map Frame.goal = some g → g.isGround = true

section

variable {catalog : Catalog} {policy : Policy} {past : List Search}
  {frames frames' : List Frame} {states states' : States} {s : Search} {f : Frame}

theorem GroundRoots.congr (h : GroundRoots past frames')
    (he : frames'[0]?.map Frame.goal = frames[0]?.map Frame.goal) : GroundRoots past frames :=
  ⟨h.1, fun g hg => h.2 g (he.trans hg)⟩

theorem GroundRoots.before (h : GroundRoots (past ++ [s]) frames) : GroundRoots past s.stack :=
  ⟨fun e he => h.1 e (List.mem_append_left _ he), h.1 s (by simp)⟩

theorem GroundRoots.later (h : GroundRoots past s.stack)
    (hf : ∀ g, frames[0]?.map Frame.goal = some g → s.root? = some g) :
    GroundRoots (past ++ [s]) frames := by
  refine ⟨fun e he => ?_, fun g hg => h.2 g (hf g hg)⟩
  rcases List.mem_append.mp he with he | he
  · exact h.1 e he
  · rw [List.mem_singleton.mp he]
    exact h.2

theorem GroundRoots.pop (h : GroundRoots past (frames ++ [f])) : GroundRoots past frames := by
  refine ⟨h.1, fun g hg => ?_⟩
  obtain ⟨f₀, hf₀, rfl⟩ := Option.map_eq_some_iff.mp hg
  apply h.2
  rw [getElem?_concat_below hf₀, Option.map_some]

/-- The goal of a frame is ground, be it the goal that the search began with or one that the frame
below asks for. -/
theorem GroundRoots.ground_top (h : GroundRoots past (frames ++ [f])) (hb : catalog.Bound)
    (hs : ∀ (i : Nat) (f : Frame), frames[i]? = some f → f.Sound catalog)
    (ha : Aligned (frames ++ [f]) states) : f.goal.isGround = true := by
  rcases List.eq_nil_or_concat' frames with rfl | ⟨below, parent, rfl⟩
  · exact h.2 _ rfl
  · have hparent : (below ++ [parent])[below.length]? = some parent := getElem?_concat_top
    have hf : (below ++ [parent] ++ [f])[below.length + 1]? = some f := by simp
    obtain ⟨t, r, ht, hr, happly⟩ :=
      ha.waiting below.length parent f (getElem?_concat_below hparent) hf
    obtain ⟨sub, hsub, hground⟩ := (hs _ _ hparent).asks hb ht hr
    cases hsub.symm.trans happly
    exact hground

theorem Sealed.nil : Sealed [] fun _ => none :=
  ⟨by simp, by simp⟩

theorem Sealed.ground (h : Sealed frames states) (ha : Aligned frames states) {i : Nat}
    (hf : frames[i]? = some f) : f.goal.isGround = true :=
  (h.states _ _ (ha.framed i f hf)).1

theorem Sealed.push {goal : Term} {id : ProofId} (h : Sealed frames states)
    (hs : ∀ g, states' g = if g = goal then some (.inProgress frames.length id) else states g)
    (hg : goal.isGround = true) :
    Sealed (frames ++ [Frame.start catalog frames.length goal id]) states' where
  frames := by
    intro f hmem
    rcases List.mem_append.mp hmem with hmem | hmem
    · exact h.frames f hmem
    · rw [List.mem_singleton.mp hmem]
      exact fun a ha => nomatch ha
  states := by
    intro g state he
    rw [hs] at he
    split at he
    next hgoal =>
      cases he
      rw [hgoal]
      exact ⟨hg, fun f hf => nomatch hf⟩
    · exact h.states g state he

theorem Sealed.refer (h : Sealed frames states) (j : Nat) :
    Sealed (frames.modify j Frame.refer) states where
  frames := by
    intro f hmem
    obtain ⟨i, hi⟩ := List.mem_iff_getElem?.mp hmem
    obtain ⟨f₀, hf₀, he⟩ := getElem?_refer hi
    exact (h.frames f₀ (List.mem_of_getElem? hf₀)).congr he.attempted
  states := h.states

theorem Sealed.keep (h : Sealed s.stack s.ledger.get?) (ha : Aligned s.stack s.ledger.get?)
    (hc : ¬s.top.IsCut) (ho : (s.verdict policy).isDepthExceeded = false) :
    Sealed ((s.keep (s.verdict policy)).2.modify (s.below.length - 1) (Frame.lower s.top.low))
      (s.closed policy) where
  frames := by
    intro f hmem
    obtain ⟨i, hi⟩ := List.mem_iff_getElem?.mp hmem
    obtain ⟨f₀, hf₀, _, htrails, _⟩ := Search.keep_lowered ha ho hi
    exact (h.frames f₀ (List.mem_of_getElem? hf₀)).congr htrails.attempted
  states := by
    intro g state hg
    have htop : s.top.Sealed := h.frames s.top (by simp [Search.stack])
    obtain ⟨before, hbefore⟩ := Search.known_of_closed ha hc hg
    refine ⟨(h.states g before hbefore).1, fun failure hout => ?_⟩
    rcases s.closed_outcome? ha hc hg hout with hv | ⟨earlier, hearlier, hsame⟩ |
      ⟨f, _, _, _, _, hv, he⟩
    · exact htop.outcome hv.symm
    · exact (h.states g earlier hearlier).2 failure hsame
    · have hf : f.leavesOpen = false := htop.outcome hv
      cases he
      simp [Spread.convert, Failure.leavesOpen, Failure.anyLeavesOpen, Attempt.leavesOpen, hf]

theorem Sealed.cut {failure : Failure} (h : Sealed s.stack s.ledger.get?)
    (ha : Aligned s.stack s.ledger.get?) (hb : catalog.Bound)
    (hs : ∀ (i : Nat) (f : Frame), s.stack[i]? = some f → f.Sound catalog)
    (hd : failure.isDepthExceeded = true)
    (hcuts : Cuts (s.spread (.error failure)).get? s.top.low s.below frames) :
    Sealed frames (s.spread (.error failure)).get? := by
  have hstates : ∀ g state, (s.spread (.error failure)).get? g = some state → state.Sealed g := by
    intro g state hg
    rcases Search.cut_states (s := s) hd g with ⟨_, hn⟩ | ⟨_, hsame⟩
    · cases hn.symm.trans hg
    · exact h.states g state (hsame.symm.trans hg)
  refine ⟨fun f hmem => ?_, hstates⟩
  obtain ⟨i, hi⟩ := List.mem_iff_getElem?.mp hmem
  obtain ⟨_, f₀, hf₀, hcase⟩ := hcuts.earlier hi
  have hin : s.stack[i]? = some f₀ := getElem?_concat_below hf₀
  have hold : f₀.Sealed := h.frames f₀ (List.mem_of_getElem? hin)
  rcases hcase with rfl | ⟨_, hp⟩
  · exact hold
  · exact hold.progress hb (hs i f₀ hin) (h.ground ha hin) hstates hp

end

/-- In searches from ground goals all goals are ground, and nothing leaves a variable open. -/
theorem sealed_invariant (policy : Policy) {catalog : Catalog} (hc : catalog.Indexed)
    (hb : catalog.Bound) : Invariant catalog policy fun past frames states table =>
      ProofGraph catalog frames states table ∧ (GroundRoots past frames → Sealed frames states) where
  nothing := ⟨.empty, fun _ => .nil⟩
  forget h := ⟨h.1.forget, fun _ => .nil⟩
  past h := ⟨h.1, fun hr => h.2 ⟨fun e he => hr.1 e (List.mem_append_left _ he), hr.2⟩⟩
  push ha h hg hs hn := by
    refine ⟨h.1.push hc hg hs, fun hr => ?_⟩
    have hground := hr.ground_top hb h.1.numbered.sound hn
    exact (h.2 hr.pop).push hs hground
  progress := by
    rintro past below top top' states table ha ⟨hg, hsealed⟩ hp
    refine ⟨hg.progress ha hp, fun hr => ?_⟩
    have hold := hsealed (hr.congr (Search.root?_concat below hp.same.1))
    have htop : (below ++ [top])[below.length]? = some top := getElem?_concat_top
    refine ⟨fun f hmem => ?_, hold.states⟩
    rcases List.mem_append.mp hmem with hmem | hmem
    · exact hold.frames f (List.mem_append_left _ hmem)
    · rw [List.mem_singleton.mp hmem]
      exact (hold.frames top (by simp)).progress hb (hg.numbered.sound _ _ htop)
        (hold.ground ha htop) hold.states hp
  refer := by
    rintro past frames states table j ⟨hg, hsealed⟩
    refine ⟨hg.refer j, fun hr => (hsealed (hr.congr ?_)).refer j⟩
    rw [List.getElem?_modify]
    cases frames[0]? with
    | none => rfl
    | some f => by_cases hj : j = 0 <;> simp [hj, Frame.refer]
  keep ha h ht _ hcut ho := ⟨h.1.keep ha ht hcut ho, fun hr => (h.2 hr.before).keep ha hcut ho⟩
  cut ha h ht _ _ _ hd hcuts :=
    ⟨h.1.cut ha ht hd hcuts, fun hr => (h.2 hr.before).cut ha hb h.1.numbered.sound hd hcuts⟩

/-- Searches are begun for ground goals only, whatever else is kept. -/
theorem Invariant.kept_groundRoots {catalog : Catalog} {policy : Policy}
    {I : List Search → List Frame → States → ProofTable → Prop}
    (inv : Invariant catalog policy I) : Kept catalog policy
    (fun past known => (Aligned [] known.ledger.get? ∧ I past [] known.ledger.get? known.table) ∧
      GroundRoots past [])
    (fun past s => (Aligned s.stack s.ledger.get? ∧ I past s.stack s.ledger.get? s.table) ∧
      GroundRoots past s.stack) where
  nothing := ⟨inv.kept.nothing, by simp, by simp⟩
  forget h := ⟨inv.kept.forget h.1, h.2⟩
  counted h he := ⟨inv.kept.counted h.1 he, h.2⟩
  push h hg hr hf := ⟨inv.kept.push h.1 hg hr hf, h.2.1, fun g hroot => Option.some.inj hroot ▸ hg⟩
  running h hs :=
    ⟨inv.kept.running h.1 hs, h.2.later fun g hg => Search.root?_running h.1.1 hs ▸ hg⟩
  finished h hs := ⟨inv.kept.finished h.1 hs, h.2.later fun g hg => nomatch hg⟩

section

variable {catalog : Catalog} {policy : Policy} {V : Type} {past reached : List Search} {s : Prover V}
  {m : Moment}

/-- What holds of stack and ledger at each moment of a session. -/
structure Moment.Sealed (catalog : Catalog) (m : Moment) : Prop where
  aligned : Aligned m.frames m.states
  graph : ProofGraph catalog m.frames m.states m.known.table
  closed : Clausal.Sealed m.frames m.states

theorem Session.sealed (hc : catalog.Indexed) (hb : catalog.Bound)
    (hs : Session catalog policy past s) (h : Course catalog policy (.idle s.known) reached m) :
    m.Sealed catalog := by
  have kept := (sealed_invariant policy hc hb).kept_groundRoots
  have hm := h.kept kept past (kept.learnt hs.learnt.2.2)
  cases m with
  | idle known =>
    obtain ⟨⟨ha, hg, hsealed⟩, hroots⟩ := hm
    exact ⟨ha, hg, hsealed hroots⟩
  | searching e =>
    obtain ⟨⟨ha, hg, hsealed⟩, hroots⟩ := hm
    exact ⟨ha, hg, hsealed hroots⟩

end

/-- No variable is ever left open. A rule whose head matches a goal has all its parameters bound and
makes ground goals of its requirements; so at every moment of a session the goals under way, those
known of and those asked for are ground, and no failure that is kept, or that a call for a ground
goal gives, tells of a variable left open. -/
theorem nothing_left_open {clauses : List (String × Clause)} {catalog : Catalog} {policy : Policy}
    {V : Type} {past : List Search} {s : Prover V} (hb : Catalog.build clauses = .ok catalog)
    (hs : Session catalog policy past s) :
    (∀ goal, ∀ r ∈ catalog.rules, ∀ subst, unify goal r.head = .ok subst →
      subst.isTotalOver r.params = true ∧
        ∀ q ∈ r.body, ∃ sub, subst.apply q.pattern = .ok sub ∧ sub.isGround = true) ∧
    (∀ reached m, Course catalog policy (.idle s.known) reached m →
      (∀ f ∈ m.frames, f.goal.isGround = true ∧ f.Sealed) ∧
      (∀ f ∈ m.frames, ∀ t r, f.trial = some t → t.next? = some r →
        ∃ sub, t.subst.apply r.pattern = .ok sub ∧ sub.isGround = true) ∧
      ∀ g state, m.states g = some state → state.Sealed g) ∧
    ∀ budget goal failure next, s.compile budget goal = some (.error failure, next) →
      (goal.isGround = true → failure.leavesOpen = false) ∧
        (goal.isGround = false → failure = .nonGroundGoal goal) := by
  have hc := Catalog.build_indexed hb
  have hbound := Catalog.bound_of_build hb
  refine ⟨fun goal r hr subst hu => ⟨isTotalOver_of_unify hu, fun q hq => hbound.apply hr hu hq⟩,
    fun reached m hm => ?_, fun budget goal failure next h => ?_⟩
  · obtain ⟨ha, hg, hsealed⟩ := hs.sealed hc hbound hm
    refine ⟨fun f hmem => ?_, fun f hmem t r ht hr => ?_, hsealed.states⟩
    · obtain ⟨i, hi⟩ := List.mem_iff_getElem?.mp hmem
      exact ⟨hsealed.ground ha hi, hsealed.frames f hmem⟩
    · obtain ⟨i, hi⟩ := List.mem_iff_getElem?.mp hmem
      exact (hg.numbered.sound i f hi).asks hbound ht hr
  · obtain ⟨ha, _, _⟩ := hs.sealed hc hbound .rest
    have hnext := (Session.compile hs h).sealed hc hbound .rest
    obtain ⟨outcome, known, hp, he, rfl⟩ := Prover.compile_outcome h
    obtain rfl : outcome = .error failure := by
      cases outcome with
      | ok p => cases he
      | error f =>
        cases he
        rfl
    refine ⟨fun hground => ?_, fun hground => ?_⟩
    · rcases Knowledge.prove_answered ha hp with ⟨hg, _⟩ | hd | hanswered
      · rw [hground] at hg
        cases hg
      · exact Failure.not_leavesOpen_of_isDepthExceeded hd
      · cases hanswered with
        | failed hknown hshows =>
          exact hshows.leavesOpen.trans ((hnext.closed.states _ _ hknown).2 _ rfl)
    · rw [Knowledge.prove, hground] at hp
      cases hp
      rfl

/-- A pair with a part that no rule is for. -/
def halfPair : Term :=
  .app "Pair" [.const "Int", .const "Bool"]

theorem halfPair_leaves_nothing_open : ∃ failure next,
    (Prover.start evenCatalog ⟨some 4, .mostSpecific⟩ : Prover Unit).compile 20 halfPair =
      some (.error failure, next) ∧
    failure.leavesOpen = false ∧
    (∀ g state, next.known.ledger.get? g = some state → state.Sealed g) ∧
    ∀ r ∈ evenCatalog.rules, ∀ subst, unify halfPair r.head = .ok subst →
      subst.isTotalOver r.params = true ∧
        ∀ q ∈ r.body, ∃ sub, subst.apply q.pattern = .ok sub ∧ sub.isGround = true := by
  have hstart : Session evenCatalog ⟨some 4, .mostSpecific⟩ []
      (.start evenCatalog ⟨some 4, .mostSpecific⟩) := .start (V := Unit)
  have hany : ((Prover.start evenCatalog ⟨some 4, .mostSpecific⟩ : Prover Unit).compile 20
      halfPair).any (fun a => match a.1 with
        | .ok _ => false
        | .error _ => true) = true := by decide +kernel
  obtain ⟨⟨answer, next⟩, h, hd⟩ := (Option.any_eq_true _ _).mp hany
  cases answer with
  | ok plan => cases hd
  | error failure =>
    obtain ⟨hrules, _, hcalls⟩ := nothing_left_open build_even hstart
    obtain ⟨_, hmoments, _⟩ := nothing_left_open build_even (Session.compile hstart h)
    exact ⟨failure, next, h, (hcalls 20 _ failure next h).1 rfl, (hmoments [] _ .rest).2.2,
      hrules halfPair⟩

end Clausal
