import Clausal.Dependents
import Mathlib.Tactic.ByContra

namespace Clausal

/-- The goals that a failure of `goal` reaches. `own` are the goals parked on the goal's frame and
`lower` those parked below it; `cut` tells whether the depth bound caused the failure. -/
inductive Ledger.Affected (ledger : Ledger) (cut : Bool) (goal : Term) (own lower : List Term) :
    Term → Prop
  | goal : Affected ledger cut goal own lower goal
  | own {g} : cut = true → g ∈ own → Affected ledger cut goal own lower g
  | failure {g low f chain} : g ∈ own ++ lower →
      ledger.get? g = some (.provisional low (.error f) chain) →
      Affected ledger cut goal own lower g
  | leads {g low p chain e} : g ∈ own ++ lower →
      ledger.get? g = some (.provisional low (.ok p) chain) → e ∈ p.edges →
      Affected ledger cut goal own lower e.goal → Affected ledger cut goal own lower g

theorem Ledger.affected_cases {ledger : Ledger} {cut : Bool} {goal g : Term}
    {own lower : List Term} (h : ledger.Affected cut goal own lower g) :
    g = goal ∨ cut = true ∧ g ∈ own ∨
      g ∈ own ++ lower ∧ ∃ k o chain, ledger.get? g = some (.provisional k o chain) := by
  cases h with
  | goal => exact .inl rfl
  | own hc hg => exact .inr (.inl ⟨hc, hg⟩)
  | failure hg he => exact .inr (.inr ⟨hg, _, _, _, he⟩)
  | leads hg he _ _ => exact .inr (.inr ⟨hg, _, _, _, he⟩)

theorem Proof.firstInto?_eq_none {p : Proof} {goals : List Term}
    (h : p.firstInto? goals = none) {e : Edge} (he : e ∈ p.edges) : e.goal ∉ goals := by
  unfold firstInto? at h
  split at h
  · simp at h
  next hn =>
    obtain ⟨i, hi, rfl⟩ := List.mem_iff_getElem.mp he
    have hz : (p.edges[i], i) ∈ p.edges.zipIdx := by
      simp [List.mem_zipIdx_iff_getElem?]
    simpa using List.find?_eq_none.mp hn _ hz

theorem Proof.firstInto?_eq_some {p : Proof} {goals : List Term} {i : Nat} {subgoal : Term}
    (h : p.firstInto? goals = some (i, subgoal)) :
    ∃ e, p.edges[i]? = some e ∧ e.goal = subgoal ∧ subgoal ∈ goals := by
  unfold firstInto? at h
  split at h
  next e he =>
    obtain ⟨rfl, rfl⟩ := Prod.mk.inj (Option.some.inj h)
    have hm := List.mem_of_find?_eq_some he
    have hp := List.find?_some he
    exact ⟨e.1, List.mem_zipIdx_iff_getElem?.mp hm, rfl, by simpa using hp⟩
  · simp at h

theorem Ledger.isProvisionalFailure_iff {ledger : Ledger} {g : Term} :
    ledger.isProvisionalFailure g = true ↔
      ∃ low f chain, ledger.get? g = some (.provisional low (.error f) chain) := by
  unfold isProvisionalFailure
  split
  next low f chain h => simp [h]
  next h =>
    simp only [Bool.false_eq_true, false_iff, not_exists]
    intro low f chain hh
    exact h low f chain hh

namespace Spread

variable {failure : Failure}

/-- A visit does nothing, or fails a success that leads into a failing goal. -/
theorem visit_cases (failure : Failure) (s : Spread) (g : Term) :
    visit failure s g = s ∨
      ∃ low p chain i e, g ∉ s.failing ∧
        s.ledger.get? g = some (.provisional low (.ok p) chain) ∧
        p.edges[i]? = some e ∧ e.goal ∈ s.failing ∧
        visit failure s g =
          { ledger := s.ledger.set g (.provisional low (.error (convert failure g chain p i e.goal)) chain)
            failing := g :: s.failing
            changed := true } := by
  unfold visit
  split
  · exact .inl rfl
  next hn =>
    split
    next low p chain hp =>
      split
      · exact .inl rfl
      next i subgoal hi =>
        obtain ⟨e, he, rfl, hm⟩ := Proof.firstInto?_eq_some hi
        exact .inr ⟨low, p, chain, i, e, by simpa using hn, hp, he, hm, rfl⟩
    · exact .inl rfl

/-- A success that a visit leaves as it is leads into no failing goal. -/
theorem not_leads_of_visit_eq {s : Spread} {g : Term} (h : visit failure s g = s)
    (hg : g ∉ s.failing) {low : Nat} {p : Proof} {chain : GoalChain}
    (hp : s.ledger.get? g = some (.provisional low (.ok p) chain)) {e : Edge}
    (he : e ∈ p.edges) : e.goal ∉ s.failing := by
  have hc : s.failing.contains g = false := by simpa using hg
  simp only [visit, hc, Bool.false_eq_true, if_false, hp] at h
  split at h
  next hn => exact Proof.firstInto?_eq_none hn he
  next i subgoal hi =>
    have hf := congrArg (fun t : Spread => t.failing.length) h
    simp at hf

theorem fold_visit_of_unchanged {gs : List Term} {s : Spread}
    (h : (gs.foldl (visit failure) s).changed = false) :
    gs.foldl (visit failure) s = s ∧ ∀ g ∈ gs, visit failure s g = s := by
  induction gs generalizing s with
  | nil => simp
  | cons g gs ih =>
    obtain ⟨he, hall⟩ := ih h
    have hv : visit failure s g = s := by
      rcases visit_cases failure s g with hv | ⟨low, p, chain, i, e, _, _, _, _, hv⟩
      · exact hv
      · simp only [List.foldl_cons, he] at h
        simp [hv] at h
    rw [hv] at he hall
    refine ⟨by simpa [hv] using he, ?_⟩
    intro x hx
    rcases List.mem_cons.mp hx with rfl | hx
    · exact hv
    · exact hall x hx

/-- How many parked goals have not failed. -/
def standing (parked : List Term) (s : Spread) : Nat :=
  (parked.filter fun g => !s.failing.contains g).length

theorem standing_le (parked : List Term) (s : Spread) : standing parked s ≤ parked.length :=
  List.length_filter_le _ _

theorem standing_visit (failure : Failure) {parked : List Term} (s : Spread) {g : Term}
    (hg : g ∈ parked) :
    visit failure s g = s ∨
      standing parked (visit failure s g) < standing parked s := by
  rcases visit_cases failure s g with hv | ⟨low, p, chain, i, e, hn, _, _, _, hv⟩
  · exact .inl hv
  · refine .inr ?_
    have hf : (parked.filter fun x => !(g :: s.failing).contains x) =
        (parked.filter fun x => !s.failing.contains x).filter fun x => x ≠ g := by
      rw [List.filter_filter]
      apply List.filter_congr
      intro x _
      by_cases hx : x = g <;> simp [hx]
    rw [hv, standing, standing, hf]
    exact List.length_filter_lt_length_iff_exists.mpr
      ⟨g, List.mem_filter.mpr ⟨hg, by simpa using hn⟩, by simp⟩

theorem standing_fold (failure : Failure) {parked gs : List Term} (hgs : ∀ g ∈ gs, g ∈ parked)
    (s : Spread) :
    gs.foldl (visit failure) s = s ∨
      standing parked (gs.foldl (visit failure) s) < standing parked s := by
  induction gs generalizing s with
  | nil => exact .inl rfl
  | cons g gs ih =>
    have hrest := ih (fun x hx => hgs x (List.mem_cons_of_mem g hx)) (s := visit failure s g)
    simp only [List.foldl_cons]
    rcases standing_visit failure s (hgs g List.mem_cons_self) with hv | hv
    · rw [hv] at hrest ⊢
      exact hrest
    · rcases hrest with he | hlt
      · rw [he]
        exact .inr hv
      · exact .inr (by omega)

/-- With more rounds than goals left standing, nothing is left to fail. -/
theorem visit_close (failure : Failure) {parked : List Term} {budget : Nat} {s : Spread}
    (hb : standing parked s < budget) {g : Term} (hg : g ∈ parked) :
    visit failure (close failure parked budget s) g = close failure parked budget s := by
  induction budget generalizing s with
  | zero => omega
  | succ budget ih =>
    simp only [close]
    split
    next hc =>
      apply ih
      have hs : standing parked { s with changed := false } = standing parked s := rfl
      rcases standing_fold failure (fun _ (h : _ ∈ parked) => h) { s with changed := false } with he | hlt
      · have := congrArg Spread.changed he
        simp [sweep, he] at hc
      · unfold sweep
        omega
    next hc =>
      have hc : (sweep failure parked s).changed = false := by simpa using hc
      obtain ⟨he, hall⟩ := fold_visit_of_unchanged hc
      rw [sweep, he]
      exact hall g hg

/-- What holds while a failure spreads from the goals `start`: only affected goals are failing,
and of these the parked successes are the ones whose entries have changed. -/
structure Within (failure : Failure) (ledger : Ledger) (affected : Term → Prop)
    (start : List Term) (s : Spread) : Prop where
  start_subset : ∀ g ∈ start, g ∈ s.failing
  affected : ∀ g ∈ s.failing, affected g
  same : ∀ g, g ∈ start ∨ g ∉ s.failing → s.ledger.get? g = ledger.get? g
  converted : ∀ g ∈ s.failing, g ∉ start → ∃ low p chain i e,
    ledger.get? g = some (.provisional low (.ok p) chain) ∧ p.edges[i]? = some e ∧
      s.ledger.get? g =
        some (.provisional low (.error (convert failure g chain p i e.goal)) chain)

section

variable {ledger : Ledger} {cut : Bool} {goal : Term} {own lower : List Term} {start : List Term}

theorem Within.visit {s : Spread}
    (h : Within failure ledger (ledger.Affected cut goal own lower) start s) {g : Term}
    (hg : g ∈ own ++ lower) :
    Within failure ledger (ledger.Affected cut goal own lower) start (visit failure s g) := by
  rcases visit_cases failure s g with hv | ⟨low, p, chain, i, e, hn, hp, hi, hm, hv⟩
  · rw [hv]
    exact h
  · have hold := (h.same g (Or.inr hn)).symm.trans hp
    rw [hv]
    refine ⟨?_, ?_, ?_, ?_⟩
    · intro x hx
      exact List.mem_cons_of_mem g (h.start_subset x hx)
    · intro x hx
      rcases List.mem_cons.mp hx with rfl | hx
      · exact .leads hg hold (List.mem_of_getElem? hi) (h.affected _ hm)
      · exact h.affected x hx
    · intro x hx
      have hne : x ≠ g := by
        rintro rfl
        rcases hx with hx | hx
        · exact hn (h.start_subset x hx)
        · exact hx List.mem_cons_self
      rw [Ledger.get?_set, if_neg hne]
      exact h.same x (hx.imp_right fun hh hm => hh (List.mem_cons_of_mem g hm))
    · intro x hx hs
      by_cases hxg : x = g
      · subst hxg
        exact ⟨low, p, chain, i, e, hold, hi, by rw [Ledger.get?_set, if_pos rfl]⟩
      · rw [Ledger.get?_set, if_neg hxg]
        exact h.converted x ((List.mem_cons.mp hx).resolve_left hxg) hs

theorem Within.fold {s : Spread}
    (h : Within failure ledger (ledger.Affected cut goal own lower) start s) {gs : List Term}
    (hgs : ∀ g ∈ gs, g ∈ own ++ lower) :
    Within failure ledger (ledger.Affected cut goal own lower) start
      (gs.foldl (Spread.visit failure) s) := by
  induction gs generalizing s with
  | nil => exact h
  | cons g gs ih =>
    exact ih (h.visit (hgs g List.mem_cons_self)) fun x hx => hgs x (List.mem_cons_of_mem g hx)

theorem Within.close {s : Spread} (budget : Nat)
    (h : Within failure ledger (ledger.Affected cut goal own lower) start s) :
    Within failure ledger (ledger.Affected cut goal own lower) start
      (close failure (own ++ lower) budget s) := by
  induction budget generalizing s with
  | zero => exact h
  | succ budget ih =>
    have hs : Within failure ledger (ledger.Affected cut goal own lower) start
        (sweep failure (own ++ lower) s) :=
      Within.fold (s := { s with changed := false })
        ⟨h.start_subset, h.affected, h.same, h.converted⟩ fun _ hg => hg
    simp only [Spread.close]
    split
    · exact ih hs
    · exact hs

end

end Spread

namespace Ledger

/-- The goals from which a failure starts to spread. -/
def firstFailing (ledger : Ledger) (cut : Bool) (goal : Term) (own lower : List Term) :
    List Term :=
  goal :: (if cut then own else []) ++ (own ++ lower).filter ledger.isProvisionalFailure

theorem affected_of_mem_firstFailing {ledger : Ledger} {cut : Bool} {goal g : Term}
    {own lower : List Term} (h : g ∈ ledger.firstFailing cut goal own lower) :
    ledger.Affected cut goal own lower g := by
  unfold firstFailing at h
  rcases List.mem_append.mp h with h | h
  · rcases List.mem_cons.mp h with rfl | h
    · exact .goal
    · cases cut with
      | true => exact .own rfl (by simpa using h)
      | false => simp at h
  · obtain ⟨hm, hf⟩ := List.mem_filter.mp h
    obtain ⟨low, f, chain, he⟩ := isProvisionalFailure_iff.mp hf
    exact .failure hm he

/-- The spread of a failure, once it has come to rest. -/
def spread (ledger : Ledger) (failure : Failure) (goal : Term) (own lower : List Term) : Spread :=
  Spread.close failure (own ++ lower) ((own ++ lower).length + 1)
    ⟨ledger, ledger.firstFailing failure.isDepthExceeded goal own lower, false⟩

theorem spreadFailure_eq (ledger : Ledger) (failure : Failure) (goal : Term)
    (own lower : List Term) :
    ledger.spreadFailure failure goal own lower =
      if failure.isDepthExceeded then
        (ledger.spread failure goal own lower).failing.foldl Ledger.erase
          (ledger.spread failure goal own lower).ledger
      else (ledger.spread failure goal own lower).ledger :=
  rfl

theorem spread_within (ledger : Ledger) (failure : Failure) (goal : Term)
    (own lower : List Term) :
    Spread.Within failure ledger (ledger.Affected failure.isDepthExceeded goal own lower)
      (ledger.firstFailing failure.isDepthExceeded goal own lower)
      (ledger.spread failure goal own lower) := by
  apply Spread.Within.close
  exact ⟨fun _ hg => hg, fun _ hg => affected_of_mem_firstFailing hg, fun _ _ => rfl,
    fun _ hg hn => absurd hg hn⟩

/-- A failure comes to rest once all the affected goals are failing, and no others. -/
theorem mem_spread_failing {ledger : Ledger} {failure : Failure} {goal g : Term}
    {own lower : List Term} :
    g ∈ (ledger.spread failure goal own lower).failing ↔
      ledger.Affected failure.isDepthExceeded goal own lower g := by
  have within := spread_within ledger failure goal own lower
  refine ⟨within.affected g, ?_⟩
  intro h
  induction h with
  | goal => exact within.start_subset _ (by simp [firstFailing])
  | own hc hg => exact within.start_subset _ (by simp [firstFailing, hc, hg])
  | failure hg he =>
    apply within.start_subset
    have hf := isProvisionalFailure_iff.mpr ⟨_, _, _, he⟩
    simp only [firstFailing, List.mem_append, List.mem_filter]
    exact Or.inr ⟨List.mem_append.mp hg, hf⟩
  | @leads g low p chain e hg hp he _ ih =>
    by_contra hn
    have hb := Nat.lt_succ_of_le (Spread.standing_le (own ++ lower)
      ⟨ledger, ledger.firstFailing failure.isDepthExceeded goal own lower, false⟩)
    have hv := Spread.visit_close failure hb hg
    have hp' := (within.same g (Or.inr hn)).trans hp
    exact Spread.not_leads_of_visit_eq hv hn hp' he ih

theorem get?_fold_erase (gs : List Term) (ledger : Ledger) (g : Term) :
    (gs.foldl erase ledger).get? g = if g ∈ gs then none else ledger.get? g := by
  induction gs generalizing ledger with
  | nil => simp
  | cons x gs ih =>
    rw [List.foldl_cons, ih, get?_erase]
    by_cases hg : g ∈ gs <;> by_cases hx : g = x <;> simp [hg, hx]

/-- Entries of goals that a failure does not reach stay as they are. -/
theorem get?_spreadFailure_of_not_affected {ledger : Ledger} {failure : Failure} {goal g : Term}
    {own lower : List Term} (h : ¬ledger.Affected failure.isDepthExceeded goal own lower g) :
    (ledger.spreadFailure failure goal own lower).get? g = ledger.get? g := by
  have hn := mt mem_spread_failing.mp h
  have hs := (spread_within ledger failure goal own lower).same g (Or.inr hn)
  rw [spreadFailure_eq]
  split
  · rw [get?_fold_erase, if_neg hn, hs]
  · exact hs

/-- A failure by the depth bound drops the entries of all the goals that it reaches. -/
theorem get?_spreadFailure_of_cut {ledger : Ledger} {failure : Failure} {goal g : Term}
    {own lower : List Term} (hc : failure.isDepthExceeded = true)
    (h : ledger.Affected true goal own lower g) :
    (ledger.spreadFailure failure goal own lower).get? g = none := by
  have hm := mem_spread_failing.mpr (hc ▸ h)
  rw [spreadFailure_eq, if_pos hc, get?_fold_erase, if_pos hm]

/-- Any other failure turns the parked successes that it reaches into failures. -/
theorem get?_spreadFailure_of_affected {ledger : Ledger} {failure : Failure} {goal g : Term}
    {own lower : List Term} (hc : failure.isDepthExceeded = false)
    (h : ledger.Affected false goal own lower g) :
    ((ledger.spreadFailure failure goal own lower).get? g = ledger.get? g ∧
      (g = goal ∨ ∃ low f chain, ledger.get? g = some (.provisional low (.error f) chain))) ∨
    ∃ low p chain i e, ledger.get? g = some (.provisional low (.ok p) chain) ∧
      p.edges[i]? = some e ∧ (ledger.spreadFailure failure goal own lower).get? g =
        some (.provisional low (.error (Spread.convert failure g chain p i e.goal)) chain) := by
  have hm := mem_spread_failing.mpr (hc.symm ▸ h)
  have within := spread_within ledger failure goal own lower
  rw [spreadFailure_eq, if_neg (by simp [hc])]
  by_cases hs : g ∈ ledger.firstFailing failure.isDepthExceeded goal own lower
  · refine Or.inl ⟨within.same g (Or.inl hs), ?_⟩
    simp only [firstFailing, hc, Bool.false_eq_true, if_false, List.cons_append, List.nil_append,
      List.mem_cons, List.mem_filter] at hs
    exact hs.imp_right fun hf => isProvisionalFailure_iff.mp hf.2
  · exact Or.inr (within.converted g hm hs)

end Ledger

end Clausal
