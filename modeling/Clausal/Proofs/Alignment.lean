import Clausal.Proofs.Closing
import Mathlib.Order.Lattice

namespace Clausal

/-- The lowest stack frame that a frame rests on so far, counting the rule on trial. -/
def Frame.reach (f : Frame) : Nat :=
  match f.trial with
  | some t => min f.low t.low
  | none => f.low

/-- Two frames that differ at most in whether some requirement links back to them. -/
structure Frame.Twin (f f₀ : Frame) : Prop where
  goal : f.goal = f₀.goal
  id : f.id = f₀.id
  parked : f.parked = f₀.parked
  remaining : f.remaining = f₀.remaining
  low : f.low = f₀.low
  trial : f.trial = f₀.trial
  successes : f.successes = f₀.successes
  attempted : f.attempted = f₀.attempted

/-- A frame as it was, but for back links and goals parked on it, and for a trial that may rest on
less. -/
structure Frame.Trails (f f₀ : Frame) : Prop where
  goal : f.goal = f₀.goal
  id : f.id = f₀.id
  remaining : f.remaining = f₀.remaining
  low : f.low = f₀.low
  successes : f.successes = f₀.successes
  attempted : f.attempted = f₀.attempted
  idle : f₀.trial = none → f.trial = none
  trial : ∀ t₀, f₀.trial = some t₀ → ∃ t, f.trial = some t ∧ t.rule = t₀.rule ∧
    t.subst = t₀.subst ∧ t.edges = t₀.edges ∧ t.low ≤ t₀.low

theorem Frame.Trails.rfl {f : Frame} : f.Trails f where
  goal := Eq.refl _
  id := Eq.refl _
  remaining := Eq.refl _
  low := Eq.refl _
  successes := Eq.refl _
  attempted := Eq.refl _
  idle hn := hn
  trial t₀ ht := ⟨t₀, ht, Eq.refl _, Eq.refl _, Eq.refl _, le_rfl⟩

theorem Frame.Twin.trails {f f₀ : Frame} (h : f.Twin f₀) : f.Trails f₀ where
  goal := h.goal
  id := h.id
  remaining := h.remaining
  low := h.low
  successes := h.successes
  attempted := h.attempted
  idle hn := h.trial.trans hn
  trial t₀ ht := ⟨t₀, h.trial.trans ht, Eq.refl _, Eq.refl _, Eq.refl _, le_rfl⟩

theorem Frame.Trails.trial_of {f f₀ : Frame} (h : f.Trails f₀) {t : Trial}
    (ht : f.trial = some t) : ∃ t₀, f₀.trial = some t₀ ∧ t.rule = t₀.rule ∧ t.subst = t₀.subst ∧
      t.edges = t₀.edges ∧ t.low ≤ t₀.low := by
  cases h₀ : f₀.trial with
  | none => simp [h.idle h₀] at ht
  | some t₀ =>
    obtain ⟨t', ht', hr, hs, he, hl⟩ := h.trial t₀ h₀
    obtain rfl : t' = t := Option.some.inj (ht'.symm.trans ht)
    exact ⟨t₀, Eq.refl _, hr, hs, he, hl⟩

theorem Frame.Trails.reach_le {f f₀ : Frame} (h : f.Trails f₀) : f.reach ≤ f₀.reach := by
  cases h₀ : f₀.trial with
  | none => simp [reach, h.idle h₀, h₀, h.low]
  | some t₀ =>
    obtain ⟨t, ht, _, _, _, hl⟩ := h.trial t₀ h₀
    simp only [reach, ht, h₀, h.low]
    omega

/-- Stack and ledger agree: the goals under way are those of the frames, and every provisional goal
is parked on the frame that it rests on. On a frame that may still get an outcome of its own,
nothing else is parked. -/
structure Aligned (frames : List Frame) (states : States) : Prop where
  framed : ∀ (i : Nat) (f : Frame), frames[i]? = some f → states f.goal = some (.inProgress i f.id)
  inProgress : ∀ g i id, states g = some (.inProgress i id) →
    ∃ f, frames[i]? = some f ∧ f.goal = g ∧ f.id = id
  provisional : ∀ g k outcome chain, states g = some (.provisional k outcome chain) →
    ∃ f, frames[k]? = some f ∧ g ∈ f.parked
  parked : ∀ (i : Nat) (f : Frame) g, frames[i]? = some f → ¬CutFrom frames i → g ∈ f.parked →
    ∃ outcome chain, states g = some (.provisional i outcome chain)
  later : ∀ (i j : Nat) (f f' : Frame) g, frames[i]? = some f → frames[j]? = some f' → j ≤ i → g ∈ f.parked →
    f'.goal ≠ g
  waiting : ∀ (i : Nat) (f f' : Frame), frames[i]? = some f → frames[i + 1]? = some f' →
    ∃ t r, f.trial = some t ∧ t.next? = some r ∧ t.subst.apply r.pattern = .ok f'.goal
  low : ∀ (i : Nat) (f : Frame), frames[i]? = some f → f.low ≤ i
  trialLow : ∀ (i : Nat) (f : Frame) (t : Trial), frames[i]? = some f → f.trial = some t → t.low ≤ i

theorem getElem?_concat_cases {α : Type} {below : List α} {top f : α} {i : Nat}
    (h : (below ++ [top])[i]? = some f) :
    (i < below.length ∧ below[i]? = some f) ∨ (i = below.length ∧ f = top) := by
  rw [List.getElem?_append] at h
  split at h
  next hi => exact .inl ⟨hi, h⟩
  next hi =>
    have hz : i - below.length = 0 := by
      by_contra hne
      simp [hne] at h
    have he : top = f := by simpa [hz] using h
    exact .inr ⟨by omega, he.symm⟩

theorem getElem?_concat_below {α : Type} {below : List α} {top f : α} {i : Nat}
    (h : below[i]? = some f) : (below ++ [top])[i]? = some f := by
  have hi := (List.getElem?_eq_some_iff.mp h).1
  rw [List.getElem?_append_left hi]
  exact h

theorem getElem?_concat_top {α : Type} {below : List α} {top : α} :
    (below ++ [top])[below.length]? = some top := by
  simp

section

variable {below frames : List Frame} {top top' f : Frame} {states : States} {i j depth : Nat}

theorem getElem?_refer (h : (frames.modify j Frame.refer)[i]? = some f) :
    ∃ f₀, frames[i]? = some f₀ ∧ f.Twin f₀ := by
  rw [List.getElem?_modify] at h
  obtain ⟨f₀, hf, he⟩ := Option.map_eq_some_iff.mp h
  refine ⟨f₀, hf, ?_⟩
  rw [← he]
  split <;> exact ⟨rfl, rfl, rfl, rfl, rfl, rfl, rfl, rfl⟩

theorem exists_getElem?_refer (j : Nat) (h : frames[i]? = some f) :
    ∃ f', (frames.modify j Frame.refer)[i]? = some f' ∧ f'.Twin f := by
  rw [List.getElem?_modify, h]
  by_cases hj : j = i
  · exact ⟨f.refer, by simp [hj], ⟨rfl, rfl, rfl, rfl, rfl, rfl, rfl, rfl⟩⟩
  · exact ⟨f, by simp [hj], ⟨rfl, rfl, rfl, rfl, rfl, rfl, rfl, rfl⟩⟩

theorem getElem?_park {goals : List Term} (h : (frames.modify j (Frame.park goals))[i]? = some f) :
    ∃ f₀, frames[i]? = some f₀ ∧ (i ≠ j ∧ f = f₀ ∨ i = j ∧ f = f₀.park goals) := by
  rw [List.getElem?_modify] at h
  obtain ⟨f₀, hf, he⟩ := Option.map_eq_some_iff.mp h
  refine ⟨f₀, hf, ?_⟩
  split at he
  next hj => exact .inr ⟨hj.symm, he.symm⟩
  next hj => exact .inl ⟨fun hh => hj hh.symm, he.symm⟩

theorem exists_getElem?_park (goals : List Term) (j : Nat) (h : frames[i]? = some f) :
    ∃ f', (frames.modify j (Frame.park goals))[i]? = some f' ∧
      (i ≠ j ∧ f' = f ∨ i = j ∧ f' = f.park goals) := by
  rw [List.getElem?_modify, h]
  by_cases hj : j = i
  · exact ⟨f.park goals, by simp [hj], .inr ⟨hj.symm, rfl⟩⟩
  · exact ⟨f, by simp [hj], .inl ⟨fun hh => hj hh.symm, rfl⟩⟩

namespace Frame.Progress

theorem same (h : top.Progress states depth top') :
    top'.goal = top.goal ∧ top'.id = top.id ∧ top'.parked = top.parked := by
  cases h with
  | tried ht hr =>
    unfold tryRule
    split <;> exact ⟨rfl, rfl, rfl⟩
  | succeeded ht hn => exact ⟨rfl, rfl, rfl⟩
  | unbound ht hr ha => exact ⟨rfl, rfl, rfl⟩
  | @received t r goal answer low ht hr ha hans =>
    cases answer with
    | ok link => simp [receive, ht]
    | error b => cases b <;> simp [receive, ht, giveUp]

theorem attempted (h : top.Progress states depth top') :
    ∀ a ∈ top.attempted, a ∈ top'.attempted := by
  intro a ha
  cases h with
  | tried ht hr =>
    unfold tryRule
    split
    · exact ha
    · exact List.mem_append_left _ ha
  | succeeded ht hn => exact ha
  | unbound ht hr hv => exact List.mem_append_left _ ha
  | @received t r goal answer low ht hr hv hans =>
    cases answer with
    | ok link => simpa [receive, ht] using ha
    | error b => cases b <;> simpa [receive, ht, giveUp] using Or.inl ha

theorem isCut (h : top.Progress states depth top') (hc : top.IsCut) : top'.IsCut := by
  obtain ⟨a, ha, c, hc, hd⟩ := Frame.isCut_iff.mp hc
  exact Frame.isCut_iff.mpr ⟨a, h.attempted a ha, c, hc, hd⟩

theorem low_le (h : top.Progress states depth top') : top'.low ≤ top.low := by
  cases h with
  | tried ht hr =>
    unfold tryRule
    split <;> exact le_rfl
  | succeeded ht hn => exact min_le_left _ _
  | unbound ht hr ha => exact min_le_left _ _
  | @received t r goal answer low ht hr ha hans =>
    cases answer with
    | ok link => simp [receive, ht]
    | error b => cases b <;> simp [receive, ht, giveUp]

theorem reach_le (h : top.Progress states depth top') : top'.reach ≤ top.reach := by
  cases h with
  | tried ht hr =>
    unfold tryRule
    split
    · simp [reach, ht]
    · simp [reach, ht]
  | succeeded ht hn => simp [reach, ht, succeed]
  | unbound ht hr ha => simp [reach, ht, giveUp]
  | @received t r goal answer low ht hr ha hans =>
    cases answer with
    | ok link => simp [reach, receive, ht]
    | error b => cases b <;> simp [reach, receive, ht, giveUp]

theorem trialLow (h : top.Progress states depth top')
    (hlow : ∀ t, top.trial = some t → t.low ≤ depth) {t : Trial} (ht' : top'.trial = some t) :
    t.low ≤ depth := by
  cases h with
  | tried ht hr =>
    unfold tryRule at ht'
    split at ht'
    · cases ht'; exact le_rfl
    · simp [ht] at ht'
  | succeeded ht hn => simp [succeed] at ht'
  | unbound ht hr ha => simp [giveUp] at ht'
  | @received t₀ r goal answer low ht hr ha hans =>
    have := hlow t₀ ht
    cases answer with
    | ok link =>
      simp only [receive, ht, Option.some.injEq] at ht'
      subst ht'
      exact le_trans (min_le_left _ _) this
    | error b => cases b <;> simp [receive, ht, giveUp] at ht'

end Frame.Progress

theorem CutFrom.progress (h : top.Progress states depth top') (hc : CutFrom (below ++ [top]) i) :
    CutFrom (below ++ [top']) i := by
  obtain ⟨j, f, hj, hf, hcut⟩ := hc
  rcases getElem?_concat_cases hf with ⟨_, hf⟩ | ⟨rfl, rfl⟩
  · exact ⟨j, f, hj, getElem?_concat_below hf, hcut⟩
  · exact ⟨_, top', hj, getElem?_concat_top, h.isCut hcut⟩

theorem CutFrom.refer (hc : CutFrom frames i) : CutFrom (frames.modify j Frame.refer) i := by
  obtain ⟨k, f, hk, hf, hcut⟩ := hc
  obtain ⟨f', hf', he⟩ := exists_getElem?_refer j hf
  refine ⟨k, f', hk, hf', ?_⟩
  unfold Frame.IsCut at hcut ⊢
  rw [he.attempted]
  exact hcut

theorem CutFrom.concat (hc : CutFrom below i) : CutFrom (below ++ [top]) i := by
  obtain ⟨j, f, hj, hf, hcut⟩ := hc
  exact ⟨j, f, hj, getElem?_concat_below hf, hcut⟩

theorem Aligned.progress (h : Aligned (below ++ [top]) states)
    (hp : top.Progress states below.length top') : Aligned (below ++ [top']) states := by
  obtain ⟨hgoal, hid, hparked⟩ := hp.same
  refine ⟨?_, ?_, ?_, ?_, ?_, ?_, ?_, ?_⟩
  · intro i f hf
    rcases getElem?_concat_cases hf with ⟨_, hf⟩ | ⟨rfl, rfl⟩
    · exact h.framed i f (getElem?_concat_below hf)
    · rw [hgoal, hid]
      exact h.framed _ top getElem?_concat_top
  · intro g i id hg
    obtain ⟨f, hf, hfg, hfi⟩ := h.inProgress g i id hg
    rcases getElem?_concat_cases hf with ⟨_, hf⟩ | ⟨rfl, rfl⟩
    · exact ⟨f, getElem?_concat_below hf, hfg, hfi⟩
    · exact ⟨top', getElem?_concat_top, hgoal.trans hfg, hid.trans hfi⟩
  · intro g k o c hg
    obtain ⟨f, hf, hm⟩ := h.provisional g k o c hg
    rcases getElem?_concat_cases hf with ⟨_, hf⟩ | ⟨rfl, rfl⟩
    · exact ⟨f, getElem?_concat_below hf, hm⟩
    · exact ⟨top', getElem?_concat_top, hparked ▸ hm⟩
  · intro i f g hf hc hm
    have hc' : ¬CutFrom (below ++ [top]) i := fun hh => hc (hh.progress hp)
    rcases getElem?_concat_cases hf with ⟨_, hf⟩ | ⟨rfl, rfl⟩
    · exact h.parked i f g (getElem?_concat_below hf) hc' hm
    · exact h.parked _ top g getElem?_concat_top hc' (hparked ▸ hm)
  · intro i j f f' g hf hf' hji hm
    have earlier : ∀ (k : Nat) (x : Frame), (below ++ [top'])[k]? = some x →
        ∃ y : Frame, (below ++ [top])[k]? = some y ∧ y.goal = x.goal ∧ y.parked = x.parked := by
      intro k x hx
      rcases getElem?_concat_cases hx with ⟨_, hx⟩ | ⟨rfl, rfl⟩
      · exact ⟨x, getElem?_concat_below hx, rfl, rfl⟩
      · exact ⟨top, getElem?_concat_top, hgoal.symm, hparked.symm⟩
    obtain ⟨y, hy, _, hyp⟩ := earlier i f hf
    obtain ⟨y', hy', hyg, _⟩ := earlier j f' hf'
    rw [← hyg]
    exact h.later i j y y' g hy hy' hji (hyp ▸ hm)
  · intro i f f' hf hf'
    rcases getElem?_concat_cases hf with ⟨hi, hb⟩ | ⟨rfl, rfl⟩
    · rcases getElem?_concat_cases hf' with ⟨_, hb'⟩ | ⟨he, rfl⟩
      · exact h.waiting i f f' (getElem?_concat_below hb) (getElem?_concat_below hb')
      · rw [hgoal]
        have htop : (below ++ [top])[i + 1]? = some top := he ▸ getElem?_concat_top
        exact h.waiting i f top (getElem?_concat_below hb) htop
    · have hb := (List.getElem?_eq_some_iff.mp hf').1
      simp at hb
  · intro i f hf
    rcases getElem?_concat_cases hf with ⟨_, hf⟩ | ⟨rfl, rfl⟩
    · exact h.low i f (getElem?_concat_below hf)
    · exact le_trans hp.low_le (h.low _ top getElem?_concat_top)
  · intro i f t hf ht
    rcases getElem?_concat_cases hf with ⟨_, hf⟩ | ⟨rfl, rfl⟩
    · exact h.trialLow i f t (getElem?_concat_below hf) ht
    · exact hp.trialLow (fun t ht => h.trialLow _ top t getElem?_concat_top ht) ht

theorem Aligned.refer (h : Aligned frames states) (j : Nat) :
    Aligned (frames.modify j Frame.refer) states := by
  refine ⟨?_, ?_, ?_, ?_, ?_, ?_, ?_, ?_⟩
  · intro i f hf
    obtain ⟨f₀, hf₀, he⟩ := getElem?_refer hf
    rw [he.goal, he.id]
    exact h.framed i f₀ hf₀
  · intro g i id hg
    obtain ⟨f₀, hf₀, hfg, hfi⟩ := h.inProgress g i id hg
    obtain ⟨f, hf, he⟩ := exists_getElem?_refer j hf₀
    exact ⟨f, hf, he.goal.trans hfg, he.id.trans hfi⟩
  · intro g k o c hg
    obtain ⟨f₀, hf₀, hm⟩ := h.provisional g k o c hg
    obtain ⟨f, hf, he⟩ := exists_getElem?_refer j hf₀
    exact ⟨f, hf, he.parked ▸ hm⟩
  · intro i f g hf hc hm
    obtain ⟨f₀, hf₀, he⟩ := getElem?_refer hf
    exact h.parked i f₀ g hf₀ (fun hh => hc hh.refer) (he.parked ▸ hm)
  · intro i k f f' g hf hf' hki hm
    obtain ⟨f₀, hf₀, he⟩ := getElem?_refer hf
    obtain ⟨f₁, hf₁, he'⟩ := getElem?_refer hf'
    rw [he'.goal]
    exact h.later i k f₀ f₁ g hf₀ hf₁ hki (he.parked ▸ hm)
  · intro i f f' hf hf'
    obtain ⟨f₀, hf₀, he⟩ := getElem?_refer hf
    obtain ⟨f₁, hf₁, he'⟩ := getElem?_refer hf'
    rw [he.trial, he'.goal]
    exact h.waiting i f₀ f₁ hf₀ hf₁
  · intro i f hf
    obtain ⟨f₀, hf₀, he⟩ := getElem?_refer hf
    rw [he.low]
    exact h.low i f₀ hf₀
  · intro i f t hf ht
    obtain ⟨f₀, hf₀, he⟩ := getElem?_refer hf
    exact h.trialLow i f₀ t hf₀ (he.trial ▸ ht)

/-- Notes for the rule on trial that an answer to come rests on frame `low`. -/
def Frame.lower (low : Nat) (f : Frame) : Frame :=
  { f with trial := f.trial.map fun t => { t with low := min t.low low } }

theorem Frame.lower_receive (f : Frame) (goal : Term) (answer : Except Blocked Link) (low : Nat) :
    (f.lower low).receive goal answer low = f.receive goal answer low := by
  obtain ⟨own, id, recursive, parked, remaining, own_low, trial, successes, attempted⟩ := f
  cases trial with
  | none => rfl
  | some t =>
    cases answer with
    | ok link => simp [lower, receive, Trial.next?]
    | error b => cases b <;> simp [lower, receive, giveUp]

theorem getElem?_lower {low : Nat} (h : (frames.modify j (Frame.lower low))[i]? = some f) :
    ∃ f₀, frames[i]? = some f₀ ∧ (i ≠ j ∧ f = f₀ ∨ i = j ∧ f = f₀.lower low) := by
  rw [List.getElem?_modify] at h
  obtain ⟨f₀, hf, he⟩ := Option.map_eq_some_iff.mp h
  refine ⟨f₀, hf, ?_⟩
  split at he
  next hj => exact .inr ⟨hj.symm, he.symm⟩
  next hj => exact .inl ⟨fun hh => hj hh.symm, he.symm⟩

theorem exists_getElem?_lower (low j : Nat) (h : frames[i]? = some f) :
    ∃ f', (frames.modify j (Frame.lower low))[i]? = some f' ∧
      (i ≠ j ∧ f' = f ∨ i = j ∧ f' = f.lower low) := by
  rw [List.getElem?_modify, h]
  by_cases hj : j = i
  · exact ⟨f.lower low, by simp [hj], .inr ⟨hj.symm, rfl⟩⟩
  · exact ⟨f, by simp [hj], .inl ⟨fun hh => hj hh.symm, rfl⟩⟩

theorem CutFrom.lower {low : Nat} (hc : CutFrom frames i) :
    CutFrom (frames.modify j (Frame.lower low)) i := by
  obtain ⟨k, f, hk, hf, hcut⟩ := hc
  obtain ⟨f', hf', ⟨_, rfl⟩ | ⟨_, rfl⟩⟩ := exists_getElem?_lower low j hf
  · exact ⟨k, f', hk, hf', hcut⟩
  · exact ⟨k, _, hk, hf', hcut⟩

theorem Aligned.lower (h : Aligned frames states) (low j : Nat) :
    Aligned (frames.modify j (Frame.lower low)) states := by
  have earlier : ∀ (i : Nat) (f : Frame), (frames.modify j (Frame.lower low))[i]? = some f →
      ∃ f₀, frames[i]? = some f₀ ∧ f.goal = f₀.goal ∧ f.id = f₀.id ∧ f.parked = f₀.parked ∧
        f.low = f₀.low ∧ ∀ t, f.trial = some t →
          ∃ t₀, f₀.trial = some t₀ ∧ t.low ≤ t₀.low := by
    intro i f hf
    obtain ⟨f₀, hf₀, ⟨_, rfl⟩ | ⟨_, rfl⟩⟩ := getElem?_lower hf
    · exact ⟨f, hf₀, rfl, rfl, rfl, rfl, fun t ht => ⟨t, ht, le_rfl⟩⟩
    · refine ⟨f₀, hf₀, rfl, rfl, rfl, rfl, fun t ht => ?_⟩
      obtain ⟨t₀, ht₀, rfl⟩ := Option.map_eq_some_iff.mp ht
      exact ⟨t₀, ht₀, min_le_left _ _⟩
  have later : ∀ (i : Nat) (f₀ : Frame), frames[i]? = some f₀ →
      ∃ f, (frames.modify j (Frame.lower low))[i]? = some f ∧ f.goal = f₀.goal ∧ f.id = f₀.id ∧
        f.parked = f₀.parked := by
    intro i f₀ hf
    obtain ⟨f, hf', ⟨_, rfl⟩ | ⟨_, rfl⟩⟩ := exists_getElem?_lower low j hf
    · exact ⟨f, hf', rfl, rfl, rfl⟩
    · exact ⟨_, hf', rfl, rfl, rfl⟩
  refine ⟨?_, ?_, ?_, ?_, ?_, ?_, ?_, ?_⟩
  · intro i f hf
    obtain ⟨f₀, hf₀, hgoal, hid, _⟩ := earlier i f hf
    rw [hgoal, hid]
    exact h.framed i f₀ hf₀
  · intro g i id hg
    obtain ⟨f₀, hf₀, hfg, hfi⟩ := h.inProgress g i id hg
    obtain ⟨f, hf, hgoal, hid, _⟩ := later i f₀ hf₀
    exact ⟨f, hf, hgoal.trans hfg, hid.trans hfi⟩
  · intro g k o c hg
    obtain ⟨f₀, hf₀, hm⟩ := h.provisional g k o c hg
    obtain ⟨f, hf, _, _, hparked⟩ := later k f₀ hf₀
    exact ⟨f, hf, hparked ▸ hm⟩
  · intro i f g hf hc hm
    obtain ⟨f₀, hf₀, _, _, hparked, _⟩ := earlier i f hf
    exact h.parked i f₀ g hf₀ (fun hh => hc hh.lower) (hparked ▸ hm)
  · intro i k f f' g hf hf' hki hm
    obtain ⟨f₀, hf₀, _, _, hparked, _⟩ := earlier i f hf
    obtain ⟨f₁, hf₁, hgoal, _⟩ := earlier k f' hf'
    rw [hgoal]
    exact h.later i k f₀ f₁ g hf₀ hf₁ hki (hparked ▸ hm)
  · intro i f f' hf hf'
    obtain ⟨f₁, hf₁, hgoal, _⟩ := earlier (i + 1) f' hf'
    obtain ⟨f₀, hf₀, ⟨_, rfl⟩ | ⟨_, rfl⟩⟩ := getElem?_lower hf
    · rw [hgoal]
      exact h.waiting i f f₁ hf₀ hf₁
    · obtain ⟨t, r, ht, hr, ha⟩ := h.waiting i f₀ f₁ hf₀ hf₁
      exact ⟨{ t with low := min t.low low }, r, by simp [Frame.lower, ht], hr, hgoal ▸ ha⟩
  · intro i f hf
    obtain ⟨f₀, hf₀, _, _, _, hlow, _⟩ := earlier i f hf
    rw [hlow]
    exact h.low i f₀ hf₀
  · intro i f t hf ht
    obtain ⟨f₀, hf₀, _, _, _, _, htrial⟩ := earlier i f hf
    obtain ⟨t₀, ht₀, hle⟩ := htrial t ht
    exact le_trans hle (h.trialLow i f₀ t₀ hf₀ ht₀)

/-- A frame is only started for a goal without an entry, which the frame below asks for. -/
theorem Aligned.push {states' : States} {catalog : Catalog} {goal : Term} {id : ProofId}
    (h : Aligned frames states) (hg : states goal = none)
    (hs : ∀ g, states' g = if g = goal then some (.inProgress frames.length id) else states g)
    (hw : ∀ f, frames[frames.length - 1]? = some f →
      ∃ t r, f.trial = some t ∧ t.next? = some r ∧ t.subst.apply r.pattern = .ok goal) :
    Aligned (frames ++ [Frame.start catalog frames.length goal id]) states' := by
  have other : ∀ g, states g ≠ none → states' g = states g := by
    intro g hne
    rw [hs, if_neg]
    rintro rfl
    exact hne hg
  refine ⟨?_, ?_, ?_, ?_, ?_, ?_, ?_, ?_⟩
  · intro i f hf
    rcases getElem?_concat_cases hf with ⟨_, hf⟩ | ⟨rfl, rfl⟩
    · have he := h.framed i f hf
      rw [other _ (by simp [he]), he]
    · simp [hs, Frame.start]
  · intro g i id' he
    rw [hs] at he
    by_cases hgg : g = goal
    · rw [if_pos hgg] at he
      cases he
      exact ⟨_, getElem?_concat_top, hgg.symm, rfl⟩
    · rw [if_neg hgg] at he
      obtain ⟨f, hf, hfg, hfi⟩ := h.inProgress g i id' he
      exact ⟨f, getElem?_concat_below hf, hfg, hfi⟩
  · intro g k o c he
    rw [hs] at he
    by_cases hgg : g = goal
    · rw [if_pos hgg] at he
      cases he
    · rw [if_neg hgg] at he
      obtain ⟨f, hf, hm⟩ := h.provisional g k o c he
      exact ⟨f, getElem?_concat_below hf, hm⟩
  · intro i f g hf hc hm
    rcases getElem?_concat_cases hf with ⟨_, hf⟩ | ⟨rfl, rfl⟩
    · obtain ⟨o, c, he⟩ := h.parked i f g hf (fun hh => hc hh.concat) hm
      exact ⟨o, c, by rw [other _ (by simp [he]), he]⟩
    · simp [Frame.start] at hm
  · intro i j f f' g hf hf' hji hm
    rcases getElem?_concat_cases hf with ⟨hi, hf⟩ | ⟨rfl, rfl⟩
    · rcases getElem?_concat_cases hf' with ⟨_, hf'⟩ | ⟨rfl, rfl⟩
      · exact h.later i j f f' g hf hf' hji hm
      · omega
    · simp [Frame.start] at hm
  · intro i f f' hf hf'
    rcases getElem?_concat_cases hf with ⟨hi, hb⟩ | ⟨rfl, rfl⟩
    · rcases getElem?_concat_cases hf' with ⟨_, hb'⟩ | ⟨he, rfl⟩
      · exact h.waiting i f f' hb hb'
      · have hi : i = frames.length - 1 := by omega
        exact hw f (hi ▸ hb)
    · have hb := (List.getElem?_eq_some_iff.mp hf').1
      simp at hb
  · intro i f hf
    rcases getElem?_concat_cases hf with ⟨_, hf⟩ | ⟨rfl, rfl⟩
    · exact h.low i f hf
    · exact le_rfl
  · intro i f t hf ht
    rcases getElem?_concat_cases hf with ⟨_, hf⟩ | ⟨rfl, rfl⟩
    · exact h.trialLow i f t hf ht
    · simp [Frame.start] at ht

end

end Clausal
