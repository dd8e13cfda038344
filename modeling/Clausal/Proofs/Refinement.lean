import Clausal.Proofs.DepthReports
import Clausal.Proofs.Following

namespace Clausal

section

variable {table : ProofTable} {goal : Term} {successes : List Success} {proofs : List (Rule × ProofTree)}

theorem Success.shown_getElem? (hshown : List.Forall₂ (Success.Shown table goal) successes proofs)
    {j : Nat} {s : Success} {p : Rule × ProofTree} (hs : successes[j]? = some s)
    (hp : proofs[j]? = some p) : s.Shown table goal p := by
  obtain ⟨hj, rfl⟩ := List.getElem?_eq_some_iff.mp hs
  obtain ⟨hj', rfl⟩ := List.getElem?_eq_some_iff.mp hp
  exact (List.forall₂_iff_get.mp hshown).2 j hj hj'

theorem Success.exists_shown (hshown : List.Forall₂ (Success.Shown table goal) successes proofs)
    {j : Nat} {s : Success} (hs : successes[j]? = some s) :
    ∃ p, proofs[j]? = some p ∧ s.Shown table goal p := by
  have hj : j < proofs.length := by
    have hlt := (List.getElem?_eq_some_iff.mp hs).1
    have hlen := hshown.length_eq
    omega
  have hp := List.getElem?_eq_getElem hj
  exact ⟨_, hp, Success.shown_getElem? hshown hs hp⟩

theorem exists_success (hshown : List.Forall₂ (Success.Shown table goal) successes proofs) {j : Nat}
    {p : Rule × ProofTree} (hp : proofs[j]? = some p) :
    ∃ s, successes[j]? = some s ∧ s.Shown table goal p := by
  have hj : j < successes.length := by
    have hlt := (List.getElem?_eq_some_iff.mp hp).1
    have hlen := hshown.length_eq
    omega
  have hs := List.getElem?_eq_getElem hj
  exact ⟨_, hs, Success.shown_getElem? hshown hs hp⟩

theorem index_of_id (hids : (proofs.map fun p => p.1.id).Nodup) {j k : Nat}
    {p q : Rule × ProofTree} (hp : proofs[j]? = some p) (hq : proofs[k]? = some q)
    (hid : q.1.id = p.1.id) : k = j := by
  by_contra hne
  have hj := (List.getElem?_eq_some_iff.mp hp).1
  have hk := (List.getElem?_eq_some_iff.mp hq).1
  have hmap : (proofs.map fun p => p.1.id)[k]? = (proofs.map fun p => p.1.id)[j]? := by
    rw [List.getElem?_map, List.getElem?_map, hp, hq, Option.map_some, Option.map_some, hid]
  rcases Nat.lt_or_gt_of_ne hne with hlt | hlt
  · exact List.nodup_iff_getElem?_ne_getElem?.mp hids k j hlt (by simpa using hj) hmap
  · exact List.nodup_iff_getElem?_ne_getElem?.mp hids j k hlt (by simpa using hk) hmap.symm

/-- A proof beats all others exactly when the success at its index does. -/
theorem beats_iff (hshown : List.Forall₂ (Success.Shown table goal) successes proofs)
    (hids : (proofs.map fun p => p.1.id).Nodup) {j : Nat} {s : Success} {p : Rule × ProofTree}
    (hs : successes[j]? = some s) (hp : proofs[j]? = some p) :
    (proofs.all fun q => q.1.id == p.1.id || p.1.head.dominates q.1.head) = true ↔
      MostSpecificAt successes j s := by
  have hrule := (Success.shown_getElem? hshown hs hp).1
  simp only [List.all_eq_true, Bool.or_eq_true, beq_iff_eq]
  constructor
  · intro hall
    refine ⟨hs, fun k other hk hne => ?_⟩
    obtain ⟨q, hq, hother⟩ := Success.exists_shown hshown hk
    rw [hrule, hother.1]
    exact (hall q (List.mem_of_getElem? hq)).resolve_left fun hid => hne (index_of_id hids hp hq hid)
  · rintro ⟨_, hall⟩ q hq
    obtain ⟨k, hk⟩ := List.mem_iff_getElem?.mp hq
    by_cases hkj : k = j
    · subst hkj
      exact .inl (by rw [Option.some.inj (hk.symm.trans hp)])
    · obtain ⟨other, hother, hshow⟩ := exists_success hshown hk
      have hdom := hall k other hother hkj
      rw [hrule, hshow.1] at hdom
      exact .inr hdom

theorem winner?_of_choose? {policy : Policy}
    (hshown : List.Forall₂ (Success.Shown table goal) successes proofs)
    (hids : (proofs.map fun p => p.1.id).Nodup) {s : Success}
    (hs : policy.choose? successes = some s) :
    ∃ p, s.Shown table goal p ∧ policy.tieBreak.winner? proofs = some p.2 := by
  unfold Policy.choose? at hs
  unfold TieBreak.winner?
  cases htie : policy.tieBreak with
  | strict => simp [htie] at hs
  | mostSpecific =>
    rw [htie] at hs
    obtain ⟨j, hj⟩ := mostSpecific?_eq_some_iff.mp hs
    obtain ⟨p, hp, hshow⟩ := Success.exists_shown hshown hj.1
    refine ⟨p, hshow, ?_⟩
    have hbeats := (beats_iff hshown hids hj.1 hp).mpr hj
    cases hfind : proofs.find? fun p =>
        proofs.all fun q => q.1.id == p.1.id || p.1.head.dominates q.1.head with
    | none =>
      exact absurd hbeats (List.find?_eq_none.mp hfind p (List.mem_of_getElem? hp))
    | some w =>
      obtain ⟨k, hk⟩ := List.mem_iff_getElem?.mp (List.mem_of_find?_eq_some hfind)
      obtain ⟨other, hother, _⟩ := exists_success hshown hk
      have hw := List.find?_some hfind
      have hkw := (beats_iff hshown hids hother hk).mp hw
      rw [hkw.unique hj, hp] at hk
      rw [Option.map_some, ← Option.some.inj hk]

theorem winner?_eq_none {policy : Policy}
    (hshown : List.Forall₂ (Success.Shown table goal) successes proofs)
    (hids : (proofs.map fun p => p.1.id).Nodup) (hs : policy.choose? successes = none) :
    policy.tieBreak.winner? proofs = none := by
  unfold Policy.choose? at hs
  unfold TieBreak.winner?
  cases htie : policy.tieBreak with
  | strict => rfl
  | mostSpecific =>
    rw [htie] at hs
    simp only
    rw [Option.map_eq_none_iff, List.find?_eq_none]
    intro p hp hbeats
    obtain ⟨j, hj⟩ := List.mem_iff_getElem?.mp hp
    obtain ⟨s, hsj, _⟩ := exists_success hshown hj
    have hsome := mostSpecific?_eq_some_iff.mpr ⟨j, (beats_iff hshown hids hsj hj).mp hbeats⟩
    have hnone : mostSpecific? successes = none := hs
    cases hnone.symm.trans hsome

end

section

variable {catalog : Catalog} {tie : TieBreak} {policy : Policy} {table : ProofTable}

theorem Catalog.Indexed.ids_nodup (h : catalog.Indexed) : (catalog.rules.map Rule.id).Nodup := by
  rw [h.map_id]
  exact List.nodup_range

theorem Tried.proofs_ids_sublist (tried : Tried) :
    (tried.proofs.map fun p => p.1.id).Sublist ((tried.map Prod.fst).map Rule.id) := by
  induction tried with
  | nil => exact .slnil
  | cons t tried ih =>
    obtain ⟨r, result⟩ := t
    cases result with
    | ok p => exact ih.cons_cons _
    | error a => exact ih.cons _

/-- The plain recursion never finds that a goal waits for itself. -/
theorem Catalog.not_cyclic_of_solved {goal : Term} {f : Failure}
    (h : catalog.solved tie goal = some (.error f)) (rule : String) (i : Nat) :
    (Attempt.subgoal rule i goal f).cycleGoal? = none := by
  obtain ⟨depth, h⟩ := solved_eq_some_iff.mp h
  cases depth with
  | zero => cases h
  | succ depth =>
    obtain ⟨tried, _, _, hs⟩ := solve_succ.mp h
    unfold Tried.solution at hs
    split at hs
    · cases hs
      rfl
    · cases hs
    · split at hs
      · cases hs
      · cases hs
        rfl

theorem Rule.not_cyclic_of_meet {r : Rule} {subst : Substitution} {a : Attempt}
    {body : List Requirement} {i : Nat}
    (h : r.meet (catalog.solved tie) subst i body = some (.error a)) : a.cycleGoal? = none := by
  induction body generalizing i with
  | nil =>
    rw [meet] at h
    cases h
  | cons q rest ih =>
    rw [meet] at h
    cases hq : subst.apply q.pattern with
    | error v =>
      rw [hq] at h
      cases h
      rfl
    | ok goal =>
      rw [hq] at h
      obtain ⟨v, hv, h⟩ := Option.bind_eq_some_iff.mp h
      cases v with
      | error cause =>
        cases h
        exact Catalog.not_cyclic_of_solved hv r.name i
      | ok p =>
        obtain ⟨met, hmet, h⟩ := Option.bind_eq_some_iff.mp h
        cases met with
        | ok ps => cases h
        | error b =>
          obtain rfl : b = a := by simpa [Except.map, pure] using h
          exact ih hmet

theorem Rule.not_cyclic_of_solve {goal : Term} {r : Rule} {a : Attempt}
    (h : r.solve (catalog.solved tie) goal = some (.error a)) : a.cycleGoal? = none := by
  rw [solve] at h
  cases hu : unify goal r.head with
  | error reason =>
    rw [hu] at h
    cases h
    rfl
  | ok subst =>
    rw [hu] at h
    obtain ⟨met, hmet, h⟩ := Option.bind_eq_some_iff.mp h
    cases met with
    | ok ps => cases h
    | error b =>
      obtain rfl : b = a := by simpa [Except.map, pure] using h
      exact not_cyclic_of_meet hmet

theorem Success.Shown.unfolds {f : Frame} {s : Success} {p : Rule × ProofTree}
    (h : s.Shown table f.goal p) : Unfolds table (f.proofBy s) p.2 := by
  obtain ⟨hrule, subproofs, hall, hp⟩ := h
  rw [hp, ← hrule]
  exact .node (p := f.proofBy s) hall

theorem Success.names {goal : Term} {successes : List Success} {proofs : List (Rule × ProofTree)}
    (hshown : List.Forall₂ (Success.Shown table goal) successes proofs) :
    (successes.map fun s => s.rule.name) = proofs.map fun p => p.1.name := by
  induction hshown with
  | nil => rfl
  | cons h _ ih => rw [List.map_cons, List.map_cons, ih, h.1]

/-- What a proof or a failure comes to in the plain recursion. -/
inductive Outcome.Matches (table : ProofTable) : Outcome → Solution → Prop
  | ok {p tree} : Unfolds table p tree → Matches table (.ok p) (.ok tree)
  | error {f} : Matches table (.error f) (.error f.unchained)

/-- A frame that followed the plain recursion to the end has its outcome. -/
theorem Frame.Follows.outcome (hc : catalog.Indexed) {i : Nat} {f : Frame}
    (h : f.Follows catalog policy.tieBreak table i) (ht : f.trial = none) (hr : f.remaining = [])
    (hcut : ¬f.IsCut) (chain : GoalChain) :
    ∃ v, catalog.solved policy.tieBreak f.goal = some v ∧
      (f.outcome policy chain).Matches table v := by
  obtain ⟨tried, hrules, htried, hshown, hattempts⟩ := h.tried
  have hmap : tried.map Prod.fst = catalog.rules.filter fun r => r.head.ctor? = f.goal.ctor? := by
    rw [← hc.candidates_eq_filter, hrules]
    simp [ht, hr]
  have hids : (tried.proofs.map fun p => p.1.id).Nodup := by
    apply tried.proofs_ids_sublist.nodup
    rw [hmap]
    exact (List.filter_sublist.map Rule.id).nodup hc.ids_nodup
  refine ⟨_, Catalog.solved_of_tried hmap htried, ?_⟩
  rcases f.outcome_cases policy chain with ⟨c, hcs, _, _⟩ | ⟨_, hs, ho⟩ | ⟨_, hlen, hs, ho⟩ |
    ⟨_, s, hs, ho⟩
  · exact absurd ⟨c, hcs⟩ hcut
  · have hproofs : tried.proofs = [] := by simpa [hs] using hshown
    have hcycle : ∀ a ∈ f.attempted, a.cycleGoal? = none := by
      intro a ha
      have hm : a.unchained ∈ tried.attempts := hattempts ▸ List.mem_map_of_mem ha
      obtain ⟨⟨r, result⟩, hmem, hresult⟩ := List.mem_filterMap.mp hm
      cases result with
      | ok p => cases hresult
      | error b =>
        obtain rfl := Option.some.inj hresult
        rw [← Attempt.cycleGoal?_unchained]
        exact Rule.not_cyclic_of_solve (htried _ hmem)
    have hsolution : tried.solution policy.tieBreak f.goal =
        .error (Failure.noRule f.goal chain f.attempted).unchained := by
      rw [Tried.solution, hproofs, Failure.unchained, Failure.unchainedAttempts_eq, hattempts]
    rw [ho, hsolution, unproved_eq_noRule hcycle]
    exact .error
  · have hlen' : 2 ≤ tried.proofs.length := hshown.length_eq ▸ hlen
    have hsolution : tried.solution policy.tieBreak f.goal =
        .error (Failure.ambiguous f.goal chain (f.successes.map fun s => s.rule.name)).unchained := by
      rw [Tried.solution_of_several hlen', winner?_eq_none hshown hids hs, Failure.unchained,
        Success.names hshown]
    rw [ho, hsolution]
    exact .error
  · have hsolution : ∃ p, s.Shown table f.goal p ∧
        tried.solution policy.tieBreak f.goal = .ok p.2 := by
      rcases hs with hs | ⟨hlen, hs⟩
      · rw [hs] at hshown
        obtain ⟨p, rest, hshow, hrest, hp⟩ := List.forall₂_cons_left_iff.mp hshown
        obtain rfl := List.forall₂_nil_left_iff.mp hrest
        exact ⟨p, hshow, by rw [Tried.solution, hp]⟩
      · have hlen' : 2 ≤ tried.proofs.length := hshown.length_eq ▸ hlen
        obtain ⟨p, hshow, hwinner⟩ := winner?_of_choose? hshown hids hs
        exact ⟨p, hshow, by rw [Tried.solution_of_several hlen', hwinner]⟩
    obtain ⟨p, hshow, hsol⟩ := hsolution
    rw [ho, hsol]
    exact .ok hshow.unfolds

end

/-- What is known of goals from which chains of needs end is what the plain recursion finds, and
the frames for such goals follow it as long as the depth bound cuts nothing short. -/
structure Refines (catalog : Catalog) (tie : TieBreak) (frames : List Frame) (states : States)
    (table : ProofTable) : Prop where
  resolved : ∀ g p, catalog.Grounded g → states g = some (.resolved p) →
    ∃ tree, catalog.solved tie g = some (.ok tree) ∧ Unfolds table p tree
  failed : ∀ g f, catalog.Grounded g → states g = some (.failed f) →
    catalog.solved tie g = some (.error f.unchained)
  provisional : ∀ g k o chain, catalog.Grounded g → states g ≠ some (.provisional k o chain)
  frames : ∀ (i : Nat) (f : Frame), frames[i]? = some f → catalog.Grounded f.goal → ¬f.IsCut →
    f.Follows catalog tie table i

section

variable {catalog : Catalog} {policy : Policy} {tie : TieBreak} {frames : List Frame}
  {states states' : States} {table table' : ProofTable}

theorem Refines.extends (h : Refines catalog tie frames states table) (he : table.Extends table') :
    Refines catalog tie frames states table' where
  resolved g p hg hs := by
    obtain ⟨tree, hsolve, hu⟩ := h.resolved g p hg hs
    exact ⟨tree, hsolve, hu.extends he⟩
  failed := h.failed
  provisional := h.provisional
  frames i f hf hg hc := (h.frames i f hf hg hc).extends he

theorem Refines.push {goal : Term} (h : Refines catalog tie frames states table)
    (hs : ∀ g, states' g = if g = goal then some (.inProgress frames.length table.size)
      else states g) :
    Refines catalog tie (frames ++ [Frame.start catalog frames.length goal table.size]) states'
      table := by
  have same : ∀ g state, states' g = some state → (∀ i id, state ≠ .inProgress i id) →
      states g = some state := by
    intro g state hg hne
    rw [hs] at hg
    split at hg
    · exact absurd (Option.some.inj hg).symm (hne _ _)
    · exact hg
  refine ⟨?_, ?_, ?_, ?_⟩
  · exact fun g p hg hp => h.resolved g p hg (same g _ hp (by simp))
  · exact fun g f hg hf => h.failed g f hg (same g _ hf (by simp))
  · exact fun g k o chain hg hp => h.provisional g k o chain hg (same g _ hp (by simp))
  · intro i f hf hg hc
    rcases getElem?_concat_cases hf with ⟨_, hf⟩ | ⟨rfl, rfl⟩
    · exact h.frames i f hf hg hc
    · exact .start

theorem Refines.progress {below : List Frame} {top top' : Frame}
    (h : Refines catalog tie (below ++ [top]) states table) (ha : Aligned (below ++ [top]) states)
    (hg : ProofGraph catalog (below ++ [top]) states table)
    (hp : top.Progress states below.length top') :
    Refines catalog tie (below ++ [top']) states table := by
  refine ⟨h.resolved, h.failed, h.provisional, ?_⟩
  intro i f hf hground hcut
  rcases getElem?_concat_cases hf with ⟨_, hf⟩ | ⟨rfl, rfl⟩
  · exact h.frames i f (getElem?_concat_below hf) hground hcut
  · have htop : (below ++ [top])[below.length]? = some top := getElem?_concat_top
    rw [hp.same.1] at hground
    have needs : ∀ t r goal, top.trial = some t → t.next? = some r →
        t.subst.apply r.pattern = .ok goal → catalog.Needs top.goal goal := fun t r goal ht hr happ =>
      (hg.numbered.sound _ top htop).needs ht hr happ
    refine (h.frames _ top htop hground fun hc => hcut (hp.isCut hc)).progress hp hcut ?_ ?_ ?_ ?_
    · intro t r goal ht hr happ j id
      have hn := needs t r goal ht hr happ
      exact ha.not_inProgress hg.numbered.sound htop (by simp) hn (hground.needs hn) j id
    · intro t r goal ht hr happ k o chain
      exact h.provisional goal k o chain (hground.needs (needs t r goal ht hr happ))
    · intro t r goal ht hr happ p hres
      have hgoal := hground.needs (needs t r goal ht hr happ)
      exact ⟨(hg.warranted.resolved goal p hres).2.1, h.resolved goal p hgoal hres⟩
    · intro t r goal ht hr happ f hfail
      exact h.failed goal f (hground.needs (needs t r goal ht hr happ)) hfail

theorem Refines.refer (h : Refines catalog tie frames states table) (j : Nat) :
    Refines catalog tie (frames.modify j Frame.refer) states table := by
  refine ⟨h.resolved, h.failed, h.provisional, ?_⟩
  intro i f hf hg hc
  obtain ⟨f₀, hf₀, ht⟩ := getElem?_refer hf
  rw [ht.goal] at hg
  unfold Frame.IsCut at hc
  rw [ht.attempted] at hc
  have hfollows := h.frames i f₀ hf₀ hg hc
  exact hfollows.trails ht.trails fun t hft => hfollows.trialLow t (ht.trial ▸ hft)

theorem Search.grounded_top {s : Search} (ha : Aligned s.stack s.ledger.get?)
    (hg : ProofGraph catalog s.stack s.ledger.get? s.table) {i : Nat} {f : Frame}
    (hf : s.stack[i]? = some f) (hi : i ≤ s.below.length) (hground : catalog.Grounded f.goal) :
    catalog.Grounded s.top.goal := by
  have hr := ha.reaches hg.numbered.sound hf getElem?_concat_top hi
  generalize s.top.goal = goal at hr
  induction hr with
  | refl => exact hground
  | tail _ hn ih => exact ih.needs hn

theorem Refines.keep_same {s : Search} (h : Refines catalog tie s.stack s.ledger.get? s.table)
    (ha : Aligned s.stack s.ledger.get?) (hcut : ¬s.top.IsCut) {outcome : Outcome}
    (ho : outcome.isDepthExceeded = false) {g : Term} (hground : catalog.Grounded g)
    (hne : g ≠ s.top.goal) : (s.keep outcome).1.get? g = s.ledger.get? g := by
  have hspread : (s.spread outcome).get? g = s.ledger.get? g := by
    rcases Search.spread_cases ho g with heq | ⟨k, p, chain, _, _, _, hp, _⟩
    · exact heq
    · exact absurd hp (h.provisional g k (.ok p) chain hground)
  rw [Search.keep_states ha hcut ho hne, hspread]
  cases hs : s.ledger.get? g with
  | none => rfl
  | some state =>
    cases state with
    | provisional k o chain => exact absurd hs (h.provisional g k o chain hground)
    | _ => rfl

theorem Refines.follows_top {s : Search} (h : Refines catalog tie s.stack s.ledger.get? s.table)
    (hcut : ¬s.top.IsCut) (hground : catalog.Grounded s.top.goal) :
    s.top.Follows catalog tie s.table s.below.length :=
  h.frames _ s.top getElem?_concat_top hground hcut

/-- What is known of the goal of the top frame once that has ended is what the plain recursion
finds. -/
theorem Refines.keep_top {s : Search} (hc : catalog.Indexed)
    (h : Refines catalog policy.tieBreak s.stack s.ledger.get? s.table)
    (hg : ProofGraph catalog s.stack s.ledger.get? s.table) (ht : s.top.trial = none)
    (hr : s.top.remaining = []) (hcut : ¬s.top.IsCut)
    (ho : (s.verdict policy).isDepthExceeded = false) (hground : catalog.Grounded s.top.goal) :
    (s.keep (s.verdict policy)).1.get? s.top.goal = some (Search.finalState (s.verdict policy)) ∧
      ∃ v, catalog.solved policy.tieBreak s.top.goal = some v ∧
        (s.verdict policy).Matches (s.recorded policy) v := by
  have hfollows := h.follows_top hcut hground
  have hlow := hfollows.low
  refine ⟨by rw [Search.keep_top ho, if_neg (by omega)], ?_⟩
  exact (hfollows.extends (Search.extends_recorded policy hg.numbered)).outcome hc ht hr hcut _

theorem Refines.keep_frame {s : Search} (h : Refines catalog tie s.stack s.ledger.get? s.table)
    (ha : Aligned s.stack s.ledger.get?)
    (hg : ProofGraph catalog s.stack s.ledger.get? s.table) (hcut : ¬s.top.IsCut)
    {outcome : Outcome} (ho : outcome.isDepthExceeded = false) {i : Nat} {f : Frame}
    (hf : ((s.keep outcome).2.modify (s.below.length - 1) (Frame.lower s.top.low))[i]? = some f)
    (hground : catalog.Grounded f.goal) (hfcut : ¬f.IsCut) : f.Follows catalog tie s.table i := by
  obtain ⟨f₀, hf₀, hi, htr, _⟩ := Search.keep_lowered ha ho hf
  rw [htr.goal] at hground
  unfold Frame.IsCut at hfcut
  rw [htr.attempted] at hfcut
  have hfollows := h.frames i f₀ hf₀ hground hfcut
  refine hfollows.trails htr fun t hft => ?_
  obtain ⟨t₀, ht₀, hlow⟩ := Search.keep_lowered_trialLow ho hf₀ hf hft
  have hle := hfollows.trialLow t₀ ht₀
  rcases hlow with hlow | ⟨hlast, hlow⟩
  · omega
  · have htop := Search.grounded_top ha hg hf₀ (by omega) hground
    have hlower := (h.follows_top hcut htop).low
    omega

theorem Refines.keep {s : Search} (hc : catalog.Indexed)
    (h : Refines catalog policy.tieBreak s.stack s.ledger.get? s.table)
    (ha : Aligned s.stack s.ledger.get?)
    (hg : ProofGraph catalog s.stack s.ledger.get? s.table) (ht : s.top.trial = none)
    (hr : s.top.remaining = []) (hcut : ¬s.top.IsCut)
    (ho : (s.verdict policy).isDepthExceeded = false) :
    Refines catalog policy.tieBreak
      ((s.keep (s.verdict policy)).2.modify (s.below.length - 1) (Frame.lower s.top.low))
      (s.keep (s.verdict policy)).1.get? (s.recorded policy) := by
  have he := Search.extends_recorded policy hg.numbered
  have top := h.keep_top hc hg ht hr hcut ho
  have same : ∀ {g}, catalog.Grounded g → g ≠ s.top.goal →
      (s.keep (s.verdict policy)).1.get? g = s.ledger.get? g := h.keep_same ha hcut ho
  refine ⟨?_, ?_, ?_, ?_⟩
  · intro g p hground hgs
    by_cases hgoal : g = s.top.goal
    · subst hgoal
      obtain ⟨hfinal, v, hsolve, hm⟩ := top hground
      cases hv : s.verdict policy with
      | error f =>
        rw [hfinal, hv] at hgs
        cases hgs
      | ok q =>
        rw [hfinal, hv] at hgs
        rw [hv] at hm
        obtain rfl : q = p := by simpa [Search.finalState] using hgs
        cases hm with
        | ok hu => exact ⟨_, hsolve, hu⟩
    · rw [same hground hgoal] at hgs
      obtain ⟨tree, hsolve, hu⟩ := h.resolved g p hground hgs
      exact ⟨tree, hsolve, hu.extends he⟩
  · intro g f hground hgs
    by_cases hgoal : g = s.top.goal
    · subst hgoal
      obtain ⟨hfinal, v, hsolve, hm⟩ := top hground
      cases hv : s.verdict policy with
      | ok q =>
        rw [hfinal, hv] at hgs
        cases hgs
      | error f' =>
        rw [hfinal, hv] at hgs
        rw [hv] at hm
        obtain rfl : f' = f := by simpa [Search.finalState] using hgs
        cases hm with
        | error => exact hsolve
    · rw [same hground hgoal] at hgs
      exact h.failed g f hground hgs
  · intro g k o chain hground hgs
    by_cases hgoal : g = s.top.goal
    · subst hgoal
      rw [(top hground).1] at hgs
      cases hv : s.verdict policy <;> rw [hv] at hgs <;> cases hgs
    · rw [same hground hgoal] at hgs
      exact h.provisional g k o chain hground hgs
  · intro i f hf hground hfcut
    exact (h.keep_frame ha hg hcut ho hf hground hfcut).extends he

theorem Refines.cut {s : Search} (h : Refines catalog tie s.stack s.ledger.get? s.table)
    {failure : Failure} (hf : failure.isDepthExceeded = true) {frames : List Frame}
    (hcuts : Cuts (s.spread (.error failure)).get? s.top.low s.below frames) :
    Refines catalog tie frames (s.spread (.error failure)).get? s.table := by
  have old : ∀ {g state}, (s.spread (.error failure)).get? g = some state →
      s.ledger.get? g = some state := by
    intro g state hg
    rcases Search.cut_states (s := s) hf g with ⟨_, hn⟩ | ⟨_, hs⟩
    · rw [hn] at hg
      cases hg
    · exact hs.symm.trans hg
  refine ⟨fun g p hg hs => h.resolved g p hg (old hs), fun g f hg hs => h.failed g f hg (old hs),
    fun g k o chain hg hs => h.provisional g k o chain hg (old hs), ?_⟩
  intro i f hfr hground hcut
  generalize hb : s.below = below at hcuts
  cases hcuts with
  | last => simp at hfr
  | @next below parent top hc hp _ =>
    rcases getElem?_concat_cases hfr with ⟨_, hfr⟩ | ⟨_, rfl⟩
    · refine h.frames i f ?_ hground hcut
      rw [Search.stack, hb]
      exact getElem?_concat_below (getElem?_concat_below hfr)
    · exact absurd hc hcut

/-- Searches keep to the plain recursion on all goals from which chains of needs end. -/
theorem refines_invariant (policy : Policy) (hc : catalog.Indexed) : Invariant catalog policy
    fun _ frames states table => ProofGraph catalog frames states table ∧
      Refines catalog policy.tieBreak frames states table where
  nothing := by
    refine ⟨.empty, ?_, ?_, ?_, ?_⟩ <;> simp
  forget h := by
    refine ⟨h.1.forget, ?_, ?_, ?_, ?_⟩ <;> simp
  past h := h
  push _ h hg hs _ := ⟨h.1.push hc hg hs, (h.2.push hs).extends (ProofTable.extends_reserve _)⟩
  progress ha h hp := ⟨h.1.progress ha hp, h.2.progress ha h.1 hp⟩
  refer j h := ⟨h.1.refer j, h.2.refer j⟩
  keep ha h ht hr hcut ho := ⟨h.1.keep ha ht hcut ho, h.2.keep hc ha h.1 ht hr hcut ho⟩
  cut ha h ht _ _ _ hf hcuts := ⟨h.1.cut ha ht hf hcuts, h.2.cut hf hcuts⟩

/-- The answer of a call is what the plain recursion finds, but for goal chains. -/
inductive Agrees : Except Failure Plan → Solution → Prop
  | ok {plan tree} : Unfolds plan.table plan.proof tree → Agrees (.ok plan) (.ok tree)
  | error {f} : Agrees (.error f) (.error f.unchained)

/-- What is known of a goal after a call agrees with the plain recursion. -/
theorem Refines.agrees {known : Knowledge} {goal : Term} {outcome : Outcome} {v : Solution}
    (h : Refines catalog tie [] known.ledger.get? known.table) (hground : catalog.Grounded goal)
    (hv : catalog.solved tie goal = some v) (ha : Answered known.ledger.get? goal outcome) :
    Agrees (outcome.map (Plan.mk known.table)) v := by
  cases ha with
  | resolved hp =>
    obtain ⟨tree, hsolve, hu⟩ := h.resolved goal _ hground hp
    cases hv.symm.trans hsolve
    exact .ok hu
  | failed hf hshows =>
    cases hv.symm.trans (h.failed goal _ hground hf)
    rw [← hshows.unchained]
    exact .error

/-- A call ends when finitely many goals can be reached from the one asked for. -/
theorem Knowledge.prove_isSome (policy : Policy) (hc : catalog.Indexed) {known : Knowledge} {goal : Term}
    (ha : Aligned [] known.ledger.get?)
    (hg : ProofGraph catalog [] known.ledger.get? known.table)
    (hfin : {x | Relation.ReflTransGen catalog.Needs goal x}.Finite) :
    ∃ n, ∀ budget, n ≤ budget → (known.prove catalog policy budget goal).isSome := by
  exact ⟨_, fun budget hle => prove_isSome_of_finite hc ha hg hfin hle⟩

theorem Session.compile_refines {V : Type} {past : List Search} {s : Prover V} {goal : Term}
    {v : Solution} (hc : catalog.Indexed) (hs : Session catalog policy past s)
    (hground : goal.isGround = true)
    (hfin : {x | Relation.ReflTransGen catalog.Needs goal x}.Finite)
    (hgrounded : catalog.Grounded goal) (hv : catalog.solved policy.tieBreak goal = some v) :
    ∃ n, ∀ budget, n ≤ budget →
      ∃ answer next, s.compile budget goal = some (answer, next) ∧
        ((∃ f, answer = .error f ∧ f.isDepthExceeded = true) ∨ Agrees answer v) := by
  have kept := (refines_invariant policy hc).kept
  obtain ⟨hcatalog, hpolicy, hlearnt⟩ := hs.learnt
  have hknown := kept.learnt hlearnt
  obtain ⟨n, hsome⟩ := Knowledge.prove_isSome policy hc hknown.1 hknown.2.1 hfin
  refine ⟨n, fun budget hle => ?_⟩
  have hends : (s.compile budget goal).isSome := by
    refine Prover.compile_isSome ?_
    rw [hcatalog, hpolicy]
    exact hsome budget hle
  obtain ⟨⟨answer, next⟩, hcompile⟩ := Option.isSome_iff_exists.mp hends
  obtain ⟨outcome, known, hprove, rfl, _⟩ := Prover.compile_outcome hcompile
  rw [hcatalog, hpolicy] at hprove
  have hnext : Aligned [] known.ledger.get? ∧ ProofGraph catalog [] known.ledger.get? known.table ∧
      Refines catalog policy.tieBreak [] known.ledger.get? known.table :=
    kept.prove past hknown hprove
  refine ⟨_, next, hcompile, ?_⟩
  rcases Knowledge.prove_answered hknown.1 hprove with ⟨hnot, _⟩ | hd | hanswered
  · rw [hground] at hnot
    cases hnot
  · cases outcome with
    | ok p => cases hd
    | error f => exact .inl ⟨f, rfl, hd⟩
  · exact .inr (hnext.2.2.agrees hgrounded hv hanswered)

/-- On a goal from which finitely many goals can be reached, none of them from itself, a call ends
with what the plain recursion finds, unless the depth bound cuts it short. That holds after all
earlier calls, whatever goals they were for. -/
theorem compile_agrees {clauses : List (String × Clause)} {V : Type} {past : List Search}
    {s : Prover V} {goal : Term} (hb : Catalog.build clauses = .ok catalog)
    (hs : Session catalog policy past s) (hground : goal.isGround = true)
    (hfin : {x | Relation.ReflTransGen catalog.Needs goal x}.Finite)
    (hacyclic : ∀ x, Relation.ReflTransGen catalog.Needs goal x →
      ¬Relation.TransGen catalog.Needs x x) :
    ∃ v depth, catalog.solve policy.tieBreak depth goal = some v ∧ ∃ n, ∀ budget, n ≤ budget →
      ∃ answer next, s.compile budget goal = some (answer, next) ∧
        ((∃ f, answer = .error f ∧ f.isDepthExceeded = true) ∨ Agrees answer v) := by
  have hgrounded := Catalog.grounded_of_finite hfin hacyclic
  obtain ⟨v, hv⟩ := hgrounded.exists_solved policy.tieBreak
  obtain ⟨depth, hdepth⟩ := Catalog.solved_eq_some_iff.mp hv
  exact ⟨v, depth, hdepth,
    hs.compile_refines (Catalog.build_indexed hb) hground hfin hgrounded hv⟩

/-- Without a depth bound no call fails for its depth. -/
theorem Session.not_isDepthExceeded {V : Type} {past : List Search} {s next : Prover V}
    {budget : Nat} {goal : Term} {f : Failure} (hs : Session catalog policy past s)
    (hn : policy.maxDepth = none) (h : s.compile budget goal = some (.error f, next)) :
    f.isDepthExceeded = false := by
  obtain ⟨hcatalog, hpolicy, hlearnt⟩ := hs.learnt
  obtain ⟨outcome, known, hprove, hf, _⟩ := Prover.compile_outcome h
  rw [hcatalog, hpolicy] at hprove
  cases outcome with
  | ok p => cases hf
  | error cause =>
    cases hf
    exact Knowledge.prove_unbounded hlearnt.clean hn hprove

/-- Without a depth bound a call ends with what the plain recursion finds. -/
theorem Session.compile_plain {V : Type} {past : List Search} {s : Prover V} {goal : Term}
    {v : Solution} (hc : catalog.Indexed) (hs : Session catalog policy past s)
    (hn : policy.maxDepth = none) (hground : goal.isGround = true)
    (hfin : {x | Relation.ReflTransGen catalog.Needs goal x}.Finite)
    (hgrounded : catalog.Grounded goal) (hv : catalog.solved policy.tieBreak goal = some v) :
    ∃ n, ∀ budget, n ≤ budget →
      ∃ answer next, s.compile budget goal = some (answer, next) ∧ Agrees answer v := by
  obtain ⟨n, hends⟩ := hs.compile_refines hc hground hfin hgrounded hv
  refine ⟨n, fun budget hle => ?_⟩
  obtain ⟨answer, next, hcompile, hcase⟩ := hends budget hle
  refine ⟨answer, next, hcompile, hcase.resolve_left ?_⟩
  rintro ⟨f, rfl, hd⟩
  cases (hs.not_isDepthExceeded hn hcompile).symm.trans hd

end

/-- The two rules that need each other, and two more of which one needs the other. -/
def grove : List (String × Clause) :=
  knot ++ [("p", ⟨"leaf", .const "Leaf", []⟩), ("p", ⟨"tree", .const "Tree", [⟨.const "Leaf", false⟩]⟩)]

def groveCatalog : Catalog where
  rules := knotCatalog.rules ++
    [⟨2, "p::leaf", .const "Leaf", []⟩, ⟨3, "p::tree", .const "Tree", [⟨.const "Leaf", false⟩]⟩]
  index := [("Node", [0]), ("Edge", [1]), ("Leaf", [2]), ("Tree", [3])]
  arities := [("Node", 0), ("Edge", 0), ("Leaf", 0), ("Tree", 0)]

theorem grove_needs {goal subgoal : Term} (hg : goal = .const "Tree" ∨ goal = .const "Leaf")
    (h : groveCatalog.Needs goal subgoal) : goal = .const "Tree" ∧ subgoal = .const "Leaf" := by
  obtain ⟨r, hr, subst, hu, q, hq, ha⟩ := h
  simp only [groveCatalog, knotCatalog, List.cons_append, List.nil_append, List.mem_cons,
    List.not_mem_nil, or_false] at hr
  rcases hg with rfl | rfl <;> rcases hr with rfl | rfl | rfl | rfl <;>
    simp [unify, Term.const, Term.isGround, Term.allGround, Substitution.extend] at hu hq
  subst hq
  rw [Substitution.apply_of_isGround _ rfl] at ha
  exact ⟨rfl, (Except.ok.inj ha).symm⟩

theorem grove_reaches {goal : Term}
    (h : Relation.ReflTransGen groveCatalog.Needs (.const "Tree") goal) :
    goal = .const "Tree" ∨ goal = .const "Leaf" := by
  induction h with
  | refl => exact .inl rfl
  | tail _ hn ih => exact .inr (grove_needs ih hn).2

/-- Also after a search for a goal that needs itself. There is no depth bound that could cut the call
short. -/
theorem grove_agrees : ∃ past, ∃ s : Prover Unit, Session groveCatalog ⟨none, .strict⟩ past s ∧
    ∃ v depth, groveCatalog.solve .strict depth (.const "Tree") = some v ∧ ∃ n, ∀ budget, n ≤ budget →
      ∃ answer next, s.compile budget (.const "Tree") = some (answer, next) ∧ Agrees answer v := by
  have hb : Catalog.build grove = .ok groveCatalog := by decide
  have hsome : ((Prover.start groveCatalog ⟨none, .strict⟩ : Prover Unit).compile 9
      (.const "Edge")).isSome = true := by decide
  obtain ⟨⟨answer, s⟩, hcompile⟩ := Option.isSome_iff_exists.mp hsome
  have hs := Session.compile (.start (V := Unit)) hcompile
  have hfin : {x | Relation.ReflTransGen groveCatalog.Needs (.const "Tree") x}.Finite :=
    (Set.toFinite {.const "Tree", .const "Leaf"}).subset fun x hx => grove_reaches hx
  have hacyclic : ∀ x, Relation.ReflTransGen groveCatalog.Needs (.const "Tree") x →
      ¬Relation.TransGen groveCatalog.Needs x x := by
    intro x hx hc
    obtain ⟨y, hn, hr⟩ := Relation.TransGen.head'_iff.mp hc
    obtain ⟨rfl, rfl⟩ := grove_needs (grove_reaches hx) hn
    rcases Relation.ReflTransGen.cases_head hr with he | ⟨z, hz, _⟩
    · simp [Term.const] at he
    · have := (grove_needs (.inr rfl) hz).1
      simp [Term.const] at this
  obtain ⟨v, depth, hsolve, n, hends⟩ := compile_agrees hb hs (by decide) hfin hacyclic
  refine ⟨_, s, hs, v, depth, hsolve, n, fun budget hle => ?_⟩
  obtain ⟨answer, next, hcall, hcase⟩ := hends budget hle
  refine ⟨answer, next, hcall, hcase.resolve_left ?_⟩
  rintro ⟨f, rfl, hd⟩
  cases (hs.not_isDepthExceeded rfl hcall).symm.trans hd

end Clausal
