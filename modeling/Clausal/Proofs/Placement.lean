import Clausal.Proofs.Course
import Clausal.Proofs.Cutting
import Clausal.Proofs.Rechaining

namespace Clausal

theorem Failure.chain?_seenFrom {f : Failure} (h : f.isConclusion = true) (chain : GoalChain) :
    (f.seenFrom chain).chain? = some chain := by
  obtain ⟨old, hold⟩ : ∃ old, f.chain? = some old := by
    cases f <;> first | exact ⟨_, rfl⟩ | cases h
  rw [seenFrom_eq_relocateFrom hold, chain?_relocateFrom, hold, Option.map_some,
    GoalChain.relocate_own]

/-- Below the given goals, the frame blames failures of goals that come right after its own, apart from
those that are due to the depth bound. -/
def Frame.Placed (above : GoalChain) (f : Frame) : Prop :=
  ∀ cause, f.Blames cause → cause.isDepthExceeded = false →
    cause.chain? = some (above ++ [f.goal])

/-- Each frame of a stack is placed below the goals of the frames under it. -/
def AllPlaced (frames : List Frame) : Prop :=
  ∀ (i : Nat) (f : Frame), frames[i]? = some f → f.Placed ((frames.take i).map Frame.goal)

/-- What a frame tells of its goal. -/
def Frame.tells (f : Frame) : Term × List Attempt :=
  (f.goal, f.attempted)

theorem Frame.receive_goal (f : Frame) (goal : Term) (answer : Except Blocked Link) (low : Nat) :
    (f.receive goal answer low).goal = f.goal := by
  unfold receive
  split
  · rfl
  · split <;> rfl

section

variable {below frames frames' : List Frame} {f f₀ top : Frame} {above : GoalChain} {cause : Failure}

theorem Frame.Placed.congr (h : f₀.Placed above) (hsame : f.tells = f₀.tells) : f.Placed above := by
  obtain ⟨hgoal, hattempted⟩ := Prod.mk.inj hsame
  unfold Placed Blames
  rw [hgoal, hattempted]
  exact h

theorem allPlaced_concat :
    AllPlaced (below ++ [top]) ↔ AllPlaced below ∧ top.Placed (below.map Frame.goal) := by
  constructor
  · intro h
    refine ⟨fun i f hf => ?_, ?_⟩
    · have hi : i < below.length := (List.getElem?_eq_some_iff.mp hf).1
      have hf' := h i f (getElem?_concat_below hf)
      rwa [List.take_append_of_le_length (Nat.le_of_lt hi)] at hf'
    · have htop := h below.length top getElem?_concat_top
      rwa [List.take_left] at htop
  · rintro ⟨hbelow, htop⟩ i f hf
    rcases getElem?_concat_cases hf with ⟨hi, hf⟩ | ⟨rfl, rfl⟩
    · rw [List.take_append_of_le_length (Nat.le_of_lt hi)]
      exact hbelow i f hf
    · rw [List.take_left]
      exact htop

/-- Frames stay placed as long as they tell the same. -/
theorem AllPlaced.congr (h : AllPlaced frames)
    (hsame : frames'.map Frame.tells = frames.map Frame.tells) : AllPlaced frames' := by
  intro i f hf
  have hgoals : (frames'.take i).map Frame.goal = (frames.take i).map Frame.goal := by
    have hfirst := congrArg (fun l => (l.take i).map Prod.fst) hsame
    simpa [List.map_take, Function.comp_def, Frame.tells] using hfirst
  have hget : (frames.map Frame.tells)[i]? = some f.tells := by
    rw [← hsame, List.getElem?_map, hf, Option.map_some]
  rw [List.getElem?_map] at hget
  obtain ⟨f₀, hf₀, htells⟩ := Option.map_eq_some_iff.mp hget
  rw [hgoals]
  exact (h i f₀ hf₀).congr htells.symm

theorem map_tells_modify {change : Frame → Frame} (hc : ∀ f, (change f).tells = f.tells)
    (j : Nat) (frames : List Frame) :
    (frames.modify j change).map Frame.tells = frames.map Frame.tells := by
  refine List.ext_getElem? fun i => ?_
  rw [List.getElem?_map, List.getElem?_map, List.getElem?_modify]
  cases frames[i]? with
  | none => rfl
  | some f => by_cases hj : j = i <;> simp [hj, hc]

theorem map_goal_of_tells (hsame : frames'.map Frame.tells = frames.map Frame.tells) :
    frames'.map Frame.goal = frames.map Frame.goal := by
  have hfirst := congrArg (List.map Prod.fst) hsame
  simpa [Function.comp_def, Frame.tells] using hfirst

end

namespace Search

variable {catalog : Catalog} {policy : Policy} {s s' next : Search} {goal : Term} {cause : Failure}

/-- The frames below a closed one tell what they told. -/
theorem keep_tells (s : Search) (outcome : Outcome) :
    (s.keep outcome).2.map Frame.tells = s.below.map Frame.tells := by
  unfold keep
  dsimp only
  split
  · rfl
  · split
    · have hpark : ∀ f, (Frame.park (s.top.goal :: s.top.parked) f).tells = f.tells := fun _ => rfl
      exact map_tells_modify hpark _ _
    · rfl

/-- An answer from what is known shows its failure below the goals under way. -/
theorem answer?_failed {deferrable : Bool} {low : Nat}
    (hconcl : ∀ g state, s.ledger.get? g = some state → state.Concluded)
    (h : s.answer? goal deferrable = some (s', .error (.failed cause), low)) :
    cause.chain? = some s.chain := by
  unfold answer? at h
  split at h
  · cases h
  · split at h <;> cases h
  · cases h
  next hg =>
    cases h
    exact Failure.chain?_seenFrom (hconcl goal _ hg) s.chain
  · cases h
  next hg =>
    cases h
    exact Failure.chain?_seenFrom (hconcl goal _ hg) s.chain

theorem answer?_tells {deferrable : Bool} {answer : Except Blocked Link} {low : Nat}
    (h : s.answer? goal deferrable = some (s', answer, low)) : s'.top.tells = s.top.tells := by
  have hrefer : ∀ j, (s.refer j).top.tells = s.top.tells := by
    intro j
    unfold refer
    split <;> rfl
  unfold answer? at h
  split at h
  · cases h
  · split at h <;> cases h
    · exact hrefer _
    · rfl
  all_goals
    cases h
    rfl

/-- A requirement that is not searched gives the top frame a failure to blame that comes right after
its goal, unless the depth bound is to blame. -/
theorem meet_blames {t : Trial} {r : Requirement}
    (hconcl : ∀ g state, s.ledger.get? g = some state → state.Concluded)
    (hd : cause.isDepthExceeded = false) (hb : (s.meet catalog policy t r).top.Blames cause) :
    s.top.Blames cause ∨ cause.chain? = some s.chain := by
  unfold meet at hb
  cases ha : t.subst.apply r.pattern with
  | error v =>
    rw [ha] at hb
    obtain ⟨a, hm, hc⟩ := hb
    rcases List.mem_append.mp hm with hm | hm
    · exact .inl ⟨a, hm, hc⟩
    · cases List.mem_singleton.mp hm
      cases hc
  | ok goal =>
    simp only [ha] at hb
    cases hans : s.answer? goal r.deferrable with
    | none =>
      simp only [hans, descend] at hb
      cases hrefusal : policy.refusal? s.chain goal with
      | none =>
        rw [hrefusal] at hb
        obtain ⟨a, hm, _⟩ := hb
        cases hm
      | some f =>
        rw [hrefusal] at hb
        rcases Frame.receive_blames hb with hold | hanswer
        · exact .inl hold
        · cases hanswer
          exact absurd ((Policy.refusal?_isDepthExceeded hrefusal).symm.trans hd) (by simp)
    | some result =>
      obtain ⟨s', answer, low⟩ := result
      simp only [hans] at hb
      rcases Frame.receive_blames hb with hold | rfl
      · have hattempted := (Prod.mk.inj (answer?_tells hans)).2
        unfold Frame.Blames at hold
        rw [hattempted] at hold
        exact .inl hold
      · exact .inr (answer?_failed hconcl hans)

theorem placed_progress {top : Frame}
    (hconcl : ∀ g state, s.ledger.get? g = some state → state.Concluded) (h : AllPlaced s.stack)
    (hs : s.step catalog policy = .running next) (hp : s.top.Progress s.ledger.get? s.depth top)
    (hst : next.stack = s.below ++ [top] ∨
      ∃ j, next.stack = (s.below ++ [top]).modify j Frame.refer) : AllPlaced next.stack := by
  obtain ⟨hbelow, htop⟩ := allPlaced_concat.mp h
  have htells : next.stack.map Frame.tells = (s.below ++ [top]).map Frame.tells := by
    rcases hst with hst | ⟨j, hst⟩
    · rw [hst]
    · have hrefer : ∀ f, (Frame.refer f).tells = f.tells := fun _ => rfl
      rw [hst]
      exact map_tells_modify hrefer j _
  have hlast : next.top.tells = top.tells := by
    have hget := congrArg List.getLast? htells
    simpa [stack] using hget
  refine AllPlaced.congr (allPlaced_concat.mpr ⟨hbelow, fun cause hb hd => ?_⟩) htells
  rw [hp.same.1]
  rcases hp.blames hb with hold | ⟨t, r, _, _, ht, hr, _, _⟩
  · exact htop cause hold hd
  · -- The frame has got on by an answer, so that this is what the step was.
    have hmeet : s.meet catalog policy t r = next := by simpa [step, ht, hr] using hs
    have hnext : next.top.Blames cause := by
      unfold Frame.Blames at hb ⊢
      rw [(Prod.mk.inj hlast).2]
      exact hb
    rw [← hmeet] at hnext
    rcases meet_blames hconcl hd hnext with hold | hchain
    · exact htop cause hold hd
    · rw [hchain, chain, stack, List.map_append, List.map_singleton]

theorem placed_closeTop (h : AllPlaced s.stack) (hcl : s.closeTop policy = .running next) :
    AllPlaced next.stack := by
  obtain ⟨hbelow, _⟩ := allPlaced_concat.mp h
  obtain ⟨parent, hk, _, _, htop⟩ := closeTop_running hcl
  have htells : (next.below ++ [parent]).map Frame.tells = s.below.map Frame.tells := by
    rw [← hk]
    exact keep_tells s _
  obtain ⟨hunder, hparent⟩ := allPlaced_concat.mp (hbelow.congr htells)
  have hgoal : next.top.goal = parent.goal := by
    rw [htop]
    exact Frame.receive_goal _ _ _ _
  refine allPlaced_concat.mpr ⟨hunder, fun cause hb hd => ?_⟩
  rw [hgoal]
  rw [htop] at hb
  rcases Frame.receive_blames hb with hold | hanswer
  · exact hparent cause hold hd
  · have hv : s.verdict policy = .error cause := Outcome.of_asLink hanswer
    have hc : ¬s.top.IsCut := by
      rw [← @verdict_isDepthExceeded policy, hv, Outcome.isDepthExceeded, hd]
      simp
    rw [Frame.outcome_chain hc hv, ← map_goal_of_tells htells, List.map_append,
      List.map_singleton]

theorem placed_running (hconcl : ∀ g state, s.ledger.get? g = some state → state.Concluded)
    (h : AllPlaced s.stack) (hs : s.step catalog policy = .running next) : AllPlaced next.stack := by
  rcases running_cases hs with ⟨_, _, top, hp, hst⟩ | ⟨_, _, goal, _, _, _, _, _, rfl⟩ |
    ⟨_, _, hcl⟩
  · exact placed_progress hconcl h hs hp hst
  · refine allPlaced_concat.mpr ⟨h, ?_⟩
    rintro cause ⟨a, ha, _⟩
    cases ha
  · exact placed_closeTop h hcl

end Search

/-- In every state of a session's searches each frame blames failures in their places. -/
theorem Session.placed {catalog : Catalog} {policy : Policy} {V : Type} {past : List Search}
    {s : Prover V} (h : Session catalog policy past s) {e : Search} (he : e ∈ past) :
    AllPlaced e.stack := by
  have placed := (concluded_invariant catalog policy).kept.and (J := fun _ => True)
    (R := fun s => AllPlaced s.stack) trivial (fun _ _ => trivial) (fun _ _ _ _ => trivial)
    (fun past known goal _ _ => by
      refine allPlaced_concat.mpr ⟨fun i f hf => by simp [Search.push] at hf, ?_⟩
      rintro cause ⟨a, ha, _⟩
      cases ha)
    (fun _ _ _ hs _ hp hstep => Search.placed_running hs.2.2 hp hstep)
    (fun _ _ _ _ _ _ _ _ => trivial)
  obtain ⟨past', s', hs', reached, hcourse⟩ := h.reached he
  obtain ⟨_, _, hlearnt⟩ := hs'.learnt
  obtain ⟨_, hplaced⟩ := hcourse.kept placed past' (placed.learnt hlearnt)
  exact hplaced

end Clausal
