import Clausal.Proofs.Placement
import Clausal.Proofs.Retractions

namespace Clausal

def Diagnostic.chain : Diagnostic → List String
  | .mk _ _ _ chain _ _ => chain

mutual

/-- Each cause that is shown has the chain of the diagnostic above it, followed by the goal of that
one. -/
def Diagnostic.isTraced : Diagnostic → Bool
  | .mk _ goal _ chain _ attempts => Diagnostic.areTraced (chain ++ [goal]) attempts

def Diagnostic.areTraced (chain : List String) : List AttemptReport → Bool
  | [] => true
  | a :: rest => a.isTraced chain && Diagnostic.areTraced chain rest

def AttemptReport.isTraced (chain : List String) : AttemptReport → Bool
  | .plain _ _ => true
  | .caused _ _ cause => cause.chain == chain && cause.isTraced

end

theorem Diagnostic.areTraced_eq (chain : List String) (attempts : List AttemptReport) :
    Diagnostic.areTraced chain attempts = attempts.all (AttemptReport.isTraced chain) := by
  induction attempts with
  | nil => rfl
  | cons a rest ih => simp [areTraced, ih]

/-- The failure lists one attempt, and shows there the other one, but for chains, as its cause. In a
report, that cause comes with the chain of the failure followed by its goal, and is traced. -/
def Failure.TracesBack (depth : Nat) (f cause : Failure) : Prop :=
  ∃ a shown, f.attempts = [a] ∧ a.cause? = some shown ∧ shown.unchained = cause.unchained ∧
    (shown.reportTo depth).chain = (f.reportTo (depth + 1)).chain ++ [f.goal.text] ∧
      (shown.reportTo depth).isTraced = true

namespace Failure

/-- Down to some level, each failure has causes of which the chain is its own followed by its goal,
unless some search state took back a success that the failure stands for. -/
def Led (policy : Policy) (past : List Search) : Nat → Failure → Prop
  | 0, _ => True
  | depth + 1, f => f.Retracted policy past ∨ ∀ a ∈ f.attempts, ∀ cause, a.cause? = some cause →
      cause.chain? = f.chain?.map (· ++ [f.goal]) ∧ Led policy past depth cause

variable {policy : Policy} {past : List Search} {f g inner cause : Failure} {depth level : Nat}
  {old new : GoalChain}

theorem chain_reportTo (depth : Nat) (f : Failure) :
    (f.reportTo depth).chain = f.chain?.elim [] fun chain => chain.map Term.text := by
  cases depth <;> rfl

theorem isTraced_reportTo_zero (f : Failure) : (f.reportTo 0).isTraced = true := by
  rw [reportTo_zero, reportWith, Diagnostic.isTraced, Diagnostic.areTraced_eq, List.all_map,
    List.all_eq_true]
  intro a _
  cases a <;> rfl

theorem isTraced_reportTo_succ : (f.reportTo (depth + 1)).isTraced = true ↔
    ∀ a ∈ f.attempts, ∀ cause, a.cause? = some cause →
      (cause.reportTo depth).chain = (f.reportTo (depth + 1)).chain ++ [f.goal.text] ∧
        (cause.reportTo depth).isTraced = true := by
  have hattempt : ∀ (chain : List String) (a : Attempt),
      (a.report (some fun cause => cause.reportTo depth)).isTraced chain = true ↔
        ∀ cause, a.cause? = some cause → (cause.reportTo depth).chain = chain ∧
          (cause.reportTo depth).isTraced = true := by
    intro chain a
    cases a <;> simp [Attempt.report, AttemptReport.isTraced, Attempt.cause?]
  rw [reportTo_succ, reportWith, Diagnostic.isTraced, Diagnostic.areTraced_eq, List.all_map,
    List.all_eq_true]
  exact forall₂_congr fun a _ => hattempt _ a

theorem TracesBack.isTraced (h : f.TracesBack depth cause) :
    (f.reportTo (depth + 1)).isTraced = true := by
  obtain ⟨a, shown, hattempts, hc, _, hchain, htraced⟩ := h
  refine isTraced_reportTo_succ.mpr fun b hb other hother => ?_
  rw [hattempts, List.mem_singleton] at hb
  subst hb
  cases hc.symm.trans hother
  exact ⟨hchain, htraced⟩

/-- A traced report has traced reports of all causes in it. -/
theorem Tells.isTraced (h : f.Tells level inner) (hl : level ≤ depth)
    (ht : (f.reportTo depth).isTraced = true) :
    (inner.reportTo (depth - level)).isTraced = true := by
  induction h generalizing depth with
  | self f => exact ht
  | @cause f a cause level inner ha hc _ ih =>
    obtain ⟨n, rfl⟩ : ∃ n, depth = n + 1 := ⟨depth - 1, by omega⟩
    have hcause := (isTraced_reportTo_succ.mp ht a ha cause hc).2
    have hinner := ih (by omega) hcause
    rwa [Nat.add_sub_add_right]

/-- The report of a failure is traced if the reports of those that stand for something taken back
are. -/
theorem Led.isTraced (h : f.Led policy past depth)
    (hretracted : ∀ level ≤ depth, ∀ inner, f.Tells level inner → inner.Retracted policy past →
      (inner.reportTo (depth - level)).isTraced = true) :
    (f.reportTo depth).isTraced = true := by
  induction depth generalizing f with
  | zero => exact isTraced_reportTo_zero f
  | succ depth ih =>
    rcases h with hself | hcauses
    · exact hretracted 0 (Nat.zero_le _) f (.self f) hself
    · refine isTraced_reportTo_succ.mpr fun a ha cause hc => ?_
      obtain ⟨hchain, hled⟩ := hcauses a ha cause hc
      refine ⟨?_, ih hled fun level hl inner ht hr => ?_⟩
      · rw [chain_reportTo, chain_reportTo, hchain]
        cases f with
        | noRule goal chain attempted => simp [chain?, Failure.goal]
        | _ => cases ha
      · have hinner := hretracted (level + 1) (by omega) inner (.cause ha hc ht) hr
        rwa [Nat.add_sub_add_right] at hinner

theorem Led.of_succ (h : f.Led policy past (depth + 1)) : f.Led policy past depth := by
  induction depth generalizing f with
  | zero => trivial
  | succ depth ih =>
    refine h.imp_right fun hcauses a ha cause hc => ?_
    obtain ⟨hchain, hled⟩ := hcauses a ha cause hc
    exact ⟨hchain, ih hled⟩

theorem Led.later (h : f.Led policy past depth) (s : Search) :
    f.Led policy (past ++ [s]) depth := by
  induction depth generalizing f with
  | zero => trivial
  | succ depth ih =>
    refine h.imp (fun hr => hr.later s) fun hcauses a ha cause hc => ?_
    obtain ⟨hchain, hled⟩ := hcauses a ha cause hc
    exact ⟨hchain, ih hled⟩

/-- The chains of causes go along when the chain of the failure is relocated. -/
theorem Led.relocateFrom (h : f.Led policy past depth) (hstart : f.StartsWith old)
    (new : GoalChain) : (f.relocateFrom old new depth).Led policy past depth := by
  induction depth generalizing f with
  | zero => trivial
  | succ depth ih =>
    rcases h with hself | hcauses
    · exact .inl (hself.of_unchained (unchained_relocateFrom old new (depth + 1) f).symm)
    · refine .inr fun b hb cause hc => ?_
      rw [attempts_relocateFrom] at hb
      obtain ⟨a, ha, rfl⟩ := List.mem_map.mp hb
      rw [relocateCause_succ] at hc
      obtain ⟨cause₀, hc₀, rfl⟩ := Option.map_eq_some_iff.mp hc
      obtain ⟨hchain, hled⟩ := hcauses a ha cause₀ hc₀
      rw [chain?_relocateFrom, chain?_relocateFrom, goal_relocateFrom, hchain]
      cases hown : f.chain? with
      | none =>
        rw [hown, Option.map_none] at hchain
        refine ⟨rfl, ih hled fun chain hn => ?_⟩
        cases hchain.symm.trans hn
      | some own =>
        obtain ⟨rest, rfl⟩ := hstart own hown
        rw [hown, Option.map_some, List.append_assoc] at hchain
        refine ⟨?_, ih hled fun chain hsome => ?_⟩
        · simp only [Option.map_some, List.append_assoc, GoalChain.relocate_append]
        · cases hchain.symm.trans hsome
          exact List.prefix_append old _

theorem Led.seenFrom (h : f.Led policy past causeDepth) (chain : GoalChain) :
    (f.seenFrom chain).Led policy past causeDepth := by
  cases hown : f.chain? with
  | none =>
    rw [Failure.seenFrom, hown]
    exact h
  | some own =>
    rw [seenFrom_eq_relocateFrom hown]
    refine h.relocateFrom (fun other hother => ?_) chain
    cases hown.symm.trans hother
    exact List.prefix_rfl

theorem Shows.led (hshows : f.Shows cause) (h : f.Led policy past causeDepth) :
    cause.Led policy past causeDepth := by
  rcases hshows with rfl | ⟨chain, rfl⟩
  · exact h
  · exact h.seenFrom chain

/-- A failure without attempts has no cause to lead to. -/
theorem led_of_attempts (h : f.attempts = []) : f.Led policy past depth := by
  cases depth with
  | zero => trivial
  | succ depth =>
    refine .inr fun a ha => ?_
    rw [h] at ha
    cases ha

end Failure

/-- Where all searches so far placed what their frames blame, so do the failures that the frame
blames, apart from those due to the depth bound. -/
def Frame.Leads (policy : Policy) (past : List Search) (f : Frame) : Prop :=
  (∀ e ∈ past, AllPlaced e.stack) → ∀ cause, f.Blames cause → cause.isDepthExceeded = false →
    cause.Led policy past causeDepth

section

variable {catalog : Catalog} {policy : Policy} {past : List Search} {states : States} {depth : Nat}
  {f f₀ top top' : Frame} {s : Search} {failure : Failure}

theorem Frame.Leads.congr (h : f₀.Leads policy past) (ha : f.attempted = f₀.attempted) :
    f.Leads policy past := by
  unfold Leads Blames
  rw [ha]
  exact h

theorem Frame.Leads.later (h : f.Leads policy past) (s : Search) :
    f.Leads policy (past ++ [s]) :=
  fun hplaced cause hb hd =>
    (h (fun e he => hplaced e (List.mem_append_left _ he)) cause hb hd).later s

theorem Frame.Leads.progress (h : top.Leads policy past)
    (hst : ∀ g f, FailsBy states g f → (∀ e ∈ past, AllPlaced e.stack) →
      f.Led policy past causeDepth)
    (hp : top.Progress states depth top') : top'.Leads policy past := by
  intro hplaced cause hb hd
  rcases hp.blames hb with hold | ⟨t, r, goal, low, _, _, _, hans⟩
  · exact h hplaced cause hold hd
  · rcases hans.failsBy with hcut | ⟨f, hf, hshows⟩
    · cases hcut.symm.trans hd
    · exact hshows.led (hst goal f hf hplaced)

/-- The failure of a frame in its place leads to its causes. -/
theorem Search.led_of_verdict (h : s.top.Leads policy past) (hplaced : ∀ e ∈ past, AllPlaced e.stack)
    (hs : AllPlaced s.stack) (hc : ¬s.top.IsCut) (hv : s.verdict policy = .error failure) :
    failure.Led policy past causeDepth := by
  have hown : failure.chain? = some (s.below.map Frame.goal) := Frame.outcome_chain hc hv
  rcases s.top.outcome_cases policy (s.below.map Frame.goal) with ⟨c, hcut, _, _⟩ | ⟨_, _, he⟩ |
    ⟨_, _, _, he⟩ | ⟨_, _, _, he⟩
  · exact absurd ⟨c, hcut⟩ hc
  · cases he.symm.trans hv
    rcases unproved_cases s.top.goal (s.below.map Frame.goal) s.top.attempted with
      hun | ⟨knot, rules, hun⟩
    · rw [hun]
      refine .inr fun a ha cause hcause => ?_
      have hb : s.top.Blames cause := ⟨a, ha, hcause⟩
      have hd : cause.isDepthExceeded = false :=
        Bool.eq_false_iff.mpr fun hd => hc (Frame.isCut_iff_blames.mpr ⟨cause, hb, hd⟩)
      exact ⟨(allPlaced_concat.mp hs).2 cause hb hd, (h hplaced cause hb hd).of_succ⟩
    · rw [hun]
      exact Failure.led_of_attempts rfl
  · cases he.symm.trans hv
    exact Failure.led_of_attempts rfl
  · cases he.symm.trans hv

end

theorem leads_upheld (catalog : Catalog) (policy : Policy) :
    Upheld catalog policy (fun past f => f.Leads policy past)
      (fun past _ f => (∀ e ∈ past, AllPlaced e.stack) → f.Led policy past causeDepth) where
  later h := h.later _
  known h hplaced := (h fun e he => hplaced e (List.mem_append_left _ he)).later _
  start := by
    rintro past depth goal id _ cause ⟨a, ha, _⟩
    cases ha
  trails h ht := h.congr ht.attempted
  progress _ _ hst h hp := h.progress hst hp
  fails := by
    intro past s f _ hc h hv hplaced
    have hbefore : ∀ e ∈ past, AllPlaced e.stack := fun e he => hplaced e (List.mem_append_left _ he)
    have hs : AllPlaced s.stack := hplaced s (by simp)
    exact (Search.led_of_verdict h hbefore hs hc hv).later s
  takenBack _ _ h _ := .inl h.retracted

section

variable {catalog : Catalog} {policy : Policy} {s : Search} {goal : Term} {f g cause : Failure}

theorem Search.TakesBack.tracesBack {depth : Nat} (h : s.TakesBack policy goal g)
    (hv : s.verdict policy = .error cause) (he : f.unchained = g.unchained)
    (ht : (f.reportTo (depth + 1)).isTraced = true) : f.TracesBack depth cause := by
  obtain ⟨a, shown, hattempts, hshown, hunchained⟩ := h.shows hv he
  obtain ⟨hchain, htraced⟩ :=
    Failure.isTraced_reportTo_succ.mp ht a (by simp [hattempts]) shown hshown
  exact ⟨a, shown, hattempts, hshown, hunchained, hchain, htraced⟩

/-- The failure that is made of a success taken back never has its cause in its place: the chain of
that is the one of the frame, and the goal of the success is not under way. -/
theorem Search.TakesBack.misplaces (h : s.TakesBack policy goal g)
    (ha : Aligned s.stack s.ledger.get?) : ∃ a cause, g.attempts = [a] ∧ a.cause? = some cause ∧
      cause.chain? ≠ g.chain?.map (· ++ [g.goal]) := by
  obtain ⟨cause, low, p, chain, i, e, hv, hp, _, rfl⟩ := h.converted
  refine ⟨_, cause, rfl, rfl, fun hsame => ?_⟩
  have hown : cause.chain? = some (s.below.map Frame.goal) := Frame.outcome_chain h.uncut hv
  have hchain : s.below.map Frame.goal = chain ++ [goal] := Option.some.inj (hown.symm.trans hsame)
  have hmem : goal ∈ s.below.map Frame.goal := by simp [hchain]
  obtain ⟨frame, hframe, rfl⟩ := List.mem_map.mp hmem
  obtain ⟨j, hj⟩ := List.mem_iff_getElem?.mp hframe
  cases (ha.framed j frame (getElem?_concat_below hj)).symm.trans hp

end

/-- The chains that a call reports are the real path, but for successes taken back. A failure that
tells why the goal has no value has no chain. In its report each cause has the chain of the diagnostic
above it followed by the goal of that one exactly if this holds of what stands for a success that some
step took back, and of the failure of that step below it. In the failure that such a step makes, it
does not. -/
theorem chains_are_path_iff {clauses : List (String × Clause)} {catalog : Catalog}
    {policy : Policy} {V : Type} {past : List Search} {s next : Prover V} {budget : Nat}
    {goal : Term} {f : Failure} (hb : Catalog.build clauses = .ok catalog)
    (hs : Session catalog policy past s)
    (h : s.compile budget goal = some (.error f, next)) :
    (f.isConclusion = true → f.chain? = some []) ∧
    (f.report.isTraced = true ↔ ∀ e ∈ past ++ s.known.trace catalog policy budget goal,
      ∀ taken g cause, e.TakesBack policy taken g → e.verdict policy = .error cause →
        ∀ level < causeDepth, ∀ inner, f.Tells level inner → inner.unchained = g.unchained →
          inner.TracesBack (causeDepth - level - 1) cause) ∧
    ∀ e ∈ past ++ s.known.trace catalog policy budget goal, ∀ taken g,
      e.TakesBack policy taken g → ∃ a cause, g.attempts = [a] ∧ a.cause? = some cause ∧
        cause.chain? ≠ g.chain?.map (· ++ [g.goal]) := by
  have hi := Catalog.build_indexed hb
  have hnext := hs.compile h
  obtain ⟨_, _, hlearnt⟩ := hs.learnt
  obtain ⟨_, _, hafter⟩ := hnext.learnt
  have hstored : f.isConclusion = true → ∃ stored, FailsBy next.known.ledger.get? goal stored ∧
      f = stored.seenFrom [] := s.compile_failsBy hlearnt.clean.aligned h
  have hled : f.Led policy (past ++ s.known.trace catalog policy budget goal) causeDepth := by
    by_cases hf : f.isConclusion = true
    · obtain ⟨stored, hfails, hseen⟩ := hstored hf
      obtain ⟨_, _, _, hall⟩ := ((leads_upheld catalog policy).invariant hi).kept.learnt hafter
      rw [hseen]
      exact (hall goal stored hfails fun e he => hnext.placed he).seenFrom []
    · refine Failure.led_of_attempts ?_
      cases f with
      | noRule goal chain attempted => exact absurd rfl hf
      | _ => rfl
  refine ⟨fun hf => ?_, ⟨fun ht => ?_, fun hall => ?_⟩, fun e he taken g htaken => ?_⟩
  · obtain ⟨stored, _, hseen⟩ := hstored hf
    rw [hseen] at hf ⊢
    rw [Failure.isConclusion_seenFrom] at hf
    exact Failure.chain?_seenFrom hf []
  · intro e _ taken g cause htaken hv level hl inner htells hsame
    have htraced := htells.isTraced (Nat.le_of_lt hl) ht
    rw [show causeDepth - level = causeDepth - level - 1 + 1 by omega] at htraced
    exact htaken.tracesBack hv hsame htraced
  · refine hled.isTraced fun level hl inner htells hretracted => ?_
    rcases Nat.lt_or_eq_of_le hl with hlt | rfl
    · obtain ⟨e, he, taken, g, htaken, hsame⟩ := hretracted
      obtain ⟨cause, _, _, _, _, _, hv, _⟩ := htaken.converted
      rw [show causeDepth - level = causeDepth - level - 1 + 1 by omega]
      exact (hall e he taken g cause htaken hv level hlt inner htells hsame).isTraced
    · rw [Nat.sub_self]
      exact Failure.isTraced_reportTo_zero inner
  · exact htaken.misplaces (hnext.aligned he)

/-- An outer goal that asks for an inner one, which leads back, and for one without a rule. -/
def fray : List (String × Clause) :=
  [("p", ⟨"outer", .const "Outer", [⟨.const "Inner", true⟩, ⟨.const "Missing", false⟩]⟩),
    ("p", ⟨"inner", .const "Inner", [⟨.const "Outer", true⟩]⟩)]

def frayCatalog : Catalog where
  rules := [⟨0, "p::outer", .const "Outer", [⟨.const "Inner", true⟩, ⟨.const "Missing", false⟩]⟩,
    ⟨1, "p::inner", .const "Inner", [⟨.const "Outer", true⟩]⟩]
  index := [("Outer", [0]), ("Inner", [1])]
  arities := [("Outer", 0), ("Inner", 0), ("Missing", 0)]

theorem build_fray : Catalog.build fray = .ok frayCatalog := by decide

/-- After a call for the outer goal, the failure of the inner one shows the outer one's as its cause,
as if no goal were above that. -/
theorem fray_compile_inner : ∃ past, ∃ s next : Prover Unit, ∃ f,
    Session frayCatalog Policy.default past s ∧
      s.compile 0 (.const "Inner") = some (.error f, next) ∧
      f.kind = "no-rule" ∧ f.chain? = some [] ∧ f.report.isTraced = false ∧
      f.attempts.map (fun a => a.cause?.bind Failure.chain?) = [some []] := by
  have hany : ((Prover.start frayCatalog Policy.default : Prover Unit).compile 20
      (.const "Outer")).any (fun a => (a.2.compile 0 (.const "Inner")).any fun b =>
        failsWith (fun f => f.kind = "no-rule" ∧ f.chain? = some [] ∧ f.report.isTraced = false ∧
          f.attempts.map (fun a => a.cause?.bind Failure.chain?) = [some []]) b.1) = true := by
    decide +kernel
  obtain ⟨⟨outer, s⟩, houter, hsecond⟩ := (Option.any_eq_true _ _).mp hany
  obtain ⟨⟨answer, next⟩, hinner, hfails⟩ := (Option.any_eq_true _ _).mp hsecond
  have hs : Session frayCatalog Policy.default _ s := .compile .start houter
  obtain ⟨f, rfl, hf⟩ := exists_of_failsWith hfails
  exact ⟨_, s, next, f, hs, hinner, of_decide_eq_true hf⟩

/-- The cause of the inner goal's failure has no chain, where it should have the inner goal. -/
theorem fray_breaks_chain : Catalog.build fray = .ok frayCatalog ∧
    ∃ past, ∃ s next : Prover Unit, ∃ budget f, Session frayCatalog Policy.default past s ∧
      s.compile budget (.const "Inner") = some (.error f, next) ∧
      f.kind = "no-rule" ∧ f.chain? = some [] ∧ f.report.isTraced = false ∧
      f.attempts.map (fun a => a.cause?.bind Failure.chain?) = [some []] := by
  obtain ⟨past, s, next, f, hs, hc, hshown⟩ := fray_compile_inner
  exact ⟨build_fray, past, s, next, 0, f, hs, hc, hshown⟩

/-- Some failure in the report stands for a success that was taken back, and has a wrong chain below
it. -/
theorem fray_retracts_success : ∃ past, ∃ s next : Prover Unit, ∃ budget f,
    Session frayCatalog Policy.default past s ∧
      s.compile budget (.const "Inner") = some (.error f, next) ∧
      ∃ e ∈ past ++ s.known.trace frayCatalog Policy.default budget (.const "Inner"),
        ∃ taken g cause, e.TakesBack Policy.default taken g ∧
          e.verdict Policy.default = .error cause ∧ ∃ level < causeDepth, ∃ inner,
            f.Tells level inner ∧ inner.unchained = g.unchained ∧
              ¬inner.TracesBack (causeDepth - level - 1) cause := by
  obtain ⟨past, s, next, f, hs, hc, _, _, htraced, _⟩ := fray_compile_inner
  refine ⟨past, s, next, 0, f, hs, hc, ?_⟩
  by_contra hnone
  push Not at hnone
  have hall := (chains_are_path_iff build_fray hs hc).2.1.mpr
    fun e he taken g cause htaken hv level hl inner ht hsame =>
      hnone e he taken g cause htaken hv level hl inner ht hsame
  exact absurd (hall.symm.trans htraced) (by simp)

end Clausal
