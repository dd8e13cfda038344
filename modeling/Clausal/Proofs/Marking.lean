import Clausal.Proofs.Soundness

namespace Clausal

/-- The frame with a number is marked recursive, and so is the proof recorded under it. -/
structure Noted (frames : List Frame) (table : ProofTable) (id : ProofId) : Prop where
  frame : ∀ f ∈ frames, f.id = id → f.recursive = true
  proof : ∀ p, table.get? id = some p → p.recursive = true

/-- Every back link, whether pending on the stack or in a recorded proof, is noted where it leads. -/
structure Marked (frames : List Frame) (table : ProofTable) : Prop where
  pending : ∀ f ∈ frames, ∀ e id, f.Pending e → e.link = .back id → Noted frames table id
  recorded : ∀ i p, table.get? i = some p → ∀ e ∈ p.edges, ∀ id, e.link = .back id →
    Noted frames table id

/-- A frame in a later form: it has the same number, and is marked if it was. -/
structure Frame.Continues (f' f : Frame) : Prop where
  id : f'.id = f.id
  recursive : f.recursive = true → f'.recursive = true

/-- How stack and proofs go on: a frame is new or continues one, and a new proof is that of a
frame. -/
structure Carries (frames frames' : List Frame) (table table' : ProofTable) : Prop where
  frame : ∀ f' ∈ frames', table.size ≤ f'.id ∨ ∃ f ∈ frames, f'.Continues f
  proof : ∀ i p, table'.get? i = some p → table.get? i = some p ∨
    ∃ f ∈ frames, f.id = i ∧ p.recursive = f.recursive ∧ ∀ e ∈ p.edges, f.Pending e

section

variable {catalog : Catalog} {frames frames' : List Frame} {table table' : ProofTable}
  {states : States} {depth : Nat} {top top' : Frame}

theorem Noted.later {id : ProofId} (h : Noted frames table id) (hid : id < table.size)
    (hc : Carries frames frames' table table') : Noted frames' table' id where
  frame f' hf' he := by
    rcases hc.frame f' hf' with hsize | ⟨f, hf, hcont⟩
    · rw [he] at hsize
      exact absurd hid (Nat.not_lt_of_le hsize)
    · exact hcont.recursive (h.frame f hf (hcont.id.symm.trans he))
  proof p hp := by
    rcases hc.proof id p hp with hp | ⟨f, hf, hid', hrec, _⟩
    · exact h.proof p hp
    · rw [hrec]
      exact h.frame f hf hid'

theorem Marked.later (h : Marked frames table) (hs : table.Sound catalog)
    (hn : Numbered catalog frames table) (hc : Carries frames frames' table table')
    (hpending : ∀ f' ∈ frames', ∀ e id, f'.Pending e → e.link = .back id →
      (∃ f ∈ frames, f.Pending e) ∨ Noted frames' table' id) : Marked frames' table' := by
  have old : ∀ f ∈ frames, ∀ e id, f.Pending e → e.link = .back id →
      Noted frames' table' id := by
    intro f hf e id he hlink
    obtain ⟨i, hi⟩ := List.mem_iff_getElem?.mp hf
    have hlt : e.link.target < table.size := (hn.anchored i f e hi he).lt
    rw [hlink] at hlt
    exact (h.pending f hf e id he hlink).later hlt hc
  constructor
  · intro f' hf' e id he hlink
    rcases hpending f' hf' e id he hlink with ⟨f, hf, hp⟩ | hnoted
    · exact old f hf e id hp hlink
    · exact hnoted
  · intro i p hp e he id hlink
    rcases hc.proof i p hp with hp | ⟨f, hf, _, _, hedges⟩
    · have hlt : e.link.target < table.size := (hs.anchored i p hp e he).lt
      rw [hlink] at hlt
      exact (h.recorded i p hp e he id hlink).later hlt hc
    · exact old f hf e id (hedges e he) hlink

/-- No other frame has the number of a marked one, and no proof has it yet. -/
theorem Numbered.noted (h : Numbered catalog frames table) {j : Nat} {f : Frame}
    (hf : frames[j]? = some f) (hr : f.recursive = true) : Noted frames table f.id where
  frame f' hf' he := by
    obtain ⟨i, hi⟩ := List.mem_iff_getElem?.mp hf'
    rcases Nat.lt_trichotomy i j with hij | rfl | hij
    · exact absurd he (Nat.ne_of_lt (h.ascending i j f' f hi hf hij))
    · obtain rfl := Option.some.inj (hf.symm.trans hi)
      exact hr
    · exact absurd he (Nat.ne_of_gt (h.ascending j i f f' hf hi hij))
  proof p hp := by
    rw [(h.fresh j f hf).2] at hp
    cases hp

theorem Frame.Continues.rfl {f : Frame} : f.Continues f :=
  ⟨Eq.refl _, fun hr => hr⟩

theorem Frame.Continues.trans {f f₁ f₂ : Frame} (h : f₂.Continues f₁) (h' : f₁.Continues f) :
    f₂.Continues f :=
  ⟨h.id.trans h'.id, fun hr => h.recursive (h'.recursive hr)⟩

theorem Frame.continues_park (f : Frame) (goals : List Term) : (f.park goals).Continues f :=
  ⟨Eq.refl _, fun hr => hr⟩

theorem Frame.continues_receive (f : Frame) (goal : Term) (answer : Except Blocked Link)
    (low : Nat) : (f.receive goal answer low).Continues f := by
  unfold receive
  split
  · exact .rfl
  · split <;> exact ⟨Eq.refl _, fun hr => hr⟩

theorem Frame.Progress.continues (h : top.Progress states depth top') : top'.Continues top := by
  cases h with
  | tried ht hr =>
    unfold tryRule
    split <;> exact ⟨rfl, fun hr => hr⟩
  | succeeded ht hn => exact ⟨rfl, fun hr => hr⟩
  | unbound ht hr ha => exact ⟨rfl, fun hr => hr⟩
  | @received t r goal answer low ht hr ha hans => exact top.continues_receive goal answer low

theorem Frame.continues_of_refer {i j : Nat} {f' : Frame}
    (h : (frames.modify j Frame.refer)[i]? = some f') :
    ∃ f, frames[i]? = some f ∧ f'.Continues f ∧ ∀ e, f'.Pending e → f.Pending e := by
  rw [List.getElem?_modify] at h
  obtain ⟨f, hf, rfl⟩ := Option.map_eq_some_iff.mp h
  refine ⟨f, hf, ?_⟩
  split
  · exact ⟨⟨rfl, fun _ => rfl⟩, fun _ he => he⟩
  · exact ⟨.rfl, fun _ he => he⟩

end

namespace Search

variable {catalog : Catalog} {policy : Policy} {s next : Search}

/-- The frame that a back link leads to is marked. -/
def Refers (s : Search) (id : ProofId) : Prop :=
  ∃ (j : Nat) (f : Frame), s.stack[j]? = some f ∧ f.id = id ∧ f.recursive = true

theorem pending_answer? {goal : Term} {deferrable : Bool} {s' : Search}
    {answer : Except Blocked Link} {low : Nat}
    (h : s.answer? goal deferrable = some (s', answer, low)) {e : Edge}
    (he : s'.top.Pending e) : s.top.Pending e := by
  unfold answer? at h
  split at h
  · cases h
  · split at h
    · cases h
      unfold refer at he
      split at he <;> exact he
    · cases h
      exact he
  all_goals cases h; exact he

theorem answer?_back {goal : Term} {deferrable : Bool} {s' : Search} {id : ProofId} {low : Nat}
    (h : s.answer? goal deferrable = some (s', .ok (.back id), low)) :
    ∃ j, s.ledger.get? goal = some (.inProgress j id) ∧ s' = s.refer j := by
  unfold answer? at h
  split at h
  · cases h
  next hg =>
    split at h
    · cases h
      exact ⟨_, hg, rfl⟩
    · cases h
  all_goals cases h

/-- A requirement that is met by a back link marks the frame that the link leads to. -/
theorem refers_meet (ha : Aligned s.stack s.ledger.get?) {t : Trial} {r : Requirement} {e : Edge}
    {id : ProofId} (he : (s.meet catalog policy t r).top.Pending e) (hlink : e.link = .back id) :
    s.top.Pending e ∨ (s.meet catalog policy t r).Refers id := by
  unfold meet at he ⊢
  split at he
  · exact .inl (Frame.pending_giveUp he)
  next goal _ =>
    split at he
    next s' answer low hans =>
      rcases Frame.pending_receive he with he | ⟨_, rfl⟩
      · exact .inl (pending_answer? hans he)
      · rw [hlink] at hans
        obtain ⟨j, hg, rfl⟩ := answer?_back hans
        obtain ⟨f, hf, _, hid⟩ := ha.inProgress goal j id hg
        obtain ⟨f', hf', hid'⟩ : ∃ f', (s.below ++ [s.top.receive goal (.ok e.link) low])[j]? =
            some f' ∧ f'.id = id := by
          rcases getElem?_concat_cases hf with ⟨_, hf⟩ | ⟨rfl, rfl⟩
          · exact ⟨f, getElem?_concat_below hf, hid⟩
          · exact ⟨_, getElem?_concat_top, (s.top.continues_receive _ _ _).id.trans hid⟩
        have hj : min j s.below.length = j := Nat.min_eq_left (le_of_inProgress ha hg)
        refine .inr ⟨j, f'.refer, ?_, hid', rfl⟩
        rw [refer_receive_stack, hj, List.getElem?_modify, hf']
        simp
    · unfold descend at he
      dsimp only at he
      split at he
      · rcases Frame.pending_receive he with he | ⟨_, hans⟩
        · exact .inl he
        · cases hans
      · exact absurd he Frame.not_pending_start

theorem exists_keep_park {outcome : Outcome} {i : Nat} {f : Frame}
    (hf : (s.keep outcome).2[i]? = some f) :
    ∃ f₀ goals, s.below[i]? = some f₀ ∧ f = f₀.park goals := by
  have none : ∀ f : Frame, f = f.park [] := fun f => by simp [Frame.park]
  by_cases ho : outcome.isDepthExceeded = true
  · rw [keep_of_cut ho] at hf
    exact ⟨f, [], hf, none f⟩
  · obtain ⟨f₀, hf₀, ⟨_, rfl⟩ | ⟨_, _, rfl⟩⟩ := keep_frames (by simpa using ho) hf
    · exact ⟨f, [], hf₀, none f⟩
    · exact ⟨f₀, _, hf₀, rfl⟩

/-- A back link that is new after a step leads to a marked frame. -/
theorem refers_running (ha : Aligned s.stack s.ledger.get?)
    (hs : s.step catalog policy = .running next) {e : Edge} {id : ProofId}
    (he : next.top.Pending e) (hlink : e.link = .back id) :
    (∃ f ∈ s.stack, f.Pending e) ∨ next.Refers id := by
  have top : s.top.Pending e → ∃ f ∈ s.stack, f.Pending e := fun h =>
    ⟨s.top, List.mem_append_right _ (List.mem_singleton_self _), h⟩
  unfold step at hs
  split at hs
  next t ht =>
    split at hs
    next r hr =>
      cases hs
      exact (refers_meet ha he hlink).imp_left top
    next hn =>
      cases hs
      exact .inl (top (Frame.pending_succeed ht he))
  next ht =>
    split at hs
    next rule rest hr =>
      cases hs
      exact .inl (top (Frame.pending_tryRule he))
    next hr =>
      obtain ⟨parent, hk, _, _, htop⟩ := closeTop_running hs
      rw [htop] at he
      rcases Frame.pending_receive he with he | ⟨_, hans⟩
      · have hparent : (s.keep (s.verdict policy)).2[next.below.length]? = some parent := by
          rw [hk]
          exact getElem?_concat_top
        obtain ⟨f₀, goals, hf₀, rfl⟩ := exists_keep_park hparent
        exact .inl ⟨f₀, List.mem_append_left _ (List.mem_of_getElem? hf₀), he⟩
      · cases hv : s.verdict policy with
        | ok p =>
          rw [hv] at hans
          cases hlink.symm.trans (Except.ok.inj hans).symm
        | error f =>
          rw [hv] at hans
          cases hans

/-- The proof that the end of a frame adds is the frame's own. -/
theorem recorded_cases (hn : Numbered catalog s.stack s.table) {i : ProofId} {p : Proof}
    (hp : (s.recorded policy).get? i = some p) : s.table.get? i = some p ∨
      s.top.id = i ∧ p.recursive = s.top.recursive ∧ ∀ e ∈ p.edges, s.top.Pending e := by
  cases hv : s.verdict policy with
  | error f =>
    rw [recorded_of_error hv] at hp
    exact .inl hp
  | ok q =>
    obtain ⟨hlt, hfresh⟩ := hn.fresh _ s.top getElem?_concat_top
    obtain ⟨_, w, hw, rfl⟩ := Frame.outcome_ok hv
    rw [recorded_of_ok hv, ProofTable.get?_record hlt hfresh] at hp
    split at hp
    next hi =>
      obtain rfl := Option.some.inj hp
      exact .inr ⟨hi.symm, rfl, fun e he => .inr ⟨w, hw, he⟩⟩
    next => exact .inl hp

theorem continues_progress {top : Frame} (hp : s.top.Progress s.ledger.get? s.depth top) {i : Nat}
    {f' : Frame} (hf' : (s.below ++ [top])[i]? = some f') :
    ∃ f ∈ s.stack, f'.Continues f ∧ (i < s.below.length → f' = f) := by
  rcases getElem?_concat_cases hf' with ⟨_, hf⟩ | ⟨rfl, rfl⟩
  · exact ⟨f', List.mem_append_left _ (List.mem_of_getElem? hf), .rfl, fun _ => rfl⟩
  · exact ⟨s.top, List.mem_append_right _ (List.mem_singleton_self _), hp.continues,
      fun hi => absurd hi (lt_irrefl _)⟩

theorem continues_keep {i : Nat} {f' : Frame} (hf' : (s.keep (s.verdict policy)).2[i]? = some f') :
    ∃ f ∈ s.stack, f'.Continues f ∧ ∀ e, f'.Pending e → f.Pending e := by
  obtain ⟨f, goals, hf, rfl⟩ := exists_keep_park hf'
  exact ⟨f, List.mem_append_left _ (List.mem_of_getElem? hf), f.continues_park goals,
    fun _ he => he⟩

/-- A frame after a step comes from one before it, with the same pending edges unless it is the top
one, or is a new top frame. -/
theorem frames_running (hs : s.step catalog policy = .running next) {i : Nat} {f' : Frame}
    (hf' : next.stack[i]? = some f') :
    (∃ f ∈ s.stack, f'.Continues f ∧
        (i < next.below.length → ∀ e, f'.Pending e → f.Pending e)) ∨
      s.table.size ≤ f'.id ∧ i = next.below.length := by
  rcases running_cases hs with ⟨_, _, top, hp, hst⟩ | ⟨t, r, goal, _, _, _, _, _, rfl⟩ | ⟨_, _, hcl⟩
  · left
    have hlen : next.below.length = s.below.length := by
      have hstack := next.stack_length
      rcases hst with hst | ⟨j, hst⟩ <;> rw [hst] at hstack <;> simp [depth] at hstack <;> omega
    rw [hlen]
    -- A back link marks a frame besides, which may be any of them.
    rcases hst with hst | ⟨j, hst⟩
    · rw [hst] at hf'
      obtain ⟨f, hf, hcont, hsame⟩ := continues_progress hp hf'
      exact ⟨f, hf, hcont, fun hi e he => hsame hi ▸ he⟩
    · rw [hst] at hf'
      obtain ⟨f₁, hf₁, hcont₁, hpending⟩ := Frame.continues_of_refer hf'
      obtain ⟨f, hf, hcont, hsame⟩ := continues_progress hp hf₁
      exact ⟨f, hf, hcont₁.trans hcont, fun hi e he => hsame hi ▸ hpending e he⟩
  · rcases getElem?_concat_cases hf' with ⟨_, hf'⟩ | ⟨hi, rfl⟩
    · exact .inl ⟨f', List.mem_of_getElem? hf', .rfl, fun _ _ => id⟩
    · exact .inr ⟨le_rfl, hi⟩
  · left
    obtain ⟨parent, hk, _, _, htop⟩ := closeTop_running hcl
    have kept : ∀ {f₁}, (next.below ++ [parent])[i]? = some f₁ →
        ∃ f ∈ s.stack, f₁.Continues f ∧ ∀ e, f₁.Pending e → f.Pending e :=
      fun h => continues_keep (hk ▸ h)
    rcases getElem?_concat_cases hf' with ⟨_, hf'⟩ | ⟨rfl, rfl⟩
    · obtain ⟨f, hf, hcont, hpending⟩ := kept (getElem?_concat_below hf')
      exact ⟨f, hf, hcont, fun _ => hpending⟩
    · obtain ⟨f, hf, hcont, _⟩ := kept getElem?_concat_top
      rw [htop]
      exact ⟨f, hf, (parent.continues_receive _ _ _).trans hcont,
        fun hi => absurd hi (lt_irrefl _)⟩

theorem carries_running (hn : Numbered catalog s.stack s.table)
    (hs : s.step catalog policy = .running next) :
    Carries s.stack next.stack s.table next.table where
  frame f' hf' := by
    obtain ⟨i, hi⟩ := List.mem_iff_getElem?.mp hf'
    rcases frames_running hs hi with ⟨f, hf, hcont, _⟩ | ⟨hnew, _⟩
    · exact .inr ⟨f, hf, hcont⟩
    · exact .inl hnew
  proof i p hp := by
    rcases running_cases hs with ⟨_, ht, _⟩ | ⟨_, _, _, _, _, _, _, _, rfl⟩ | ⟨_, _, hcl⟩
    · exact .inl (ht ▸ hp)
    · rw [← ProofTable.get?_reserve]
      exact .inl hp
    · obtain ⟨_, _, _, htable, _⟩ := closeTop_running hcl
      rw [htable] at hp
      exact (recorded_cases hn hp).imp_right fun h =>
        ⟨s.top, List.mem_append_right _ (List.mem_singleton_self _), h⟩

theorem marked_running (ha : Aligned s.stack s.ledger.get?)
    (hg : ProofGraph catalog s.stack s.ledger.get? s.table)
    (hnext : Numbered catalog next.stack next.table) (h : Marked s.stack s.table)
    (hs : s.step catalog policy = .running next) : Marked next.stack next.table := by
  refine h.later hg.sound hg.numbered (carries_running hg.numbered hs) ?_
  intro f' hf' e id he hlink
  obtain ⟨i, hi⟩ := List.mem_iff_getElem?.mp hf'
  rcases getElem?_concat_cases hi with ⟨hlt, hbelow⟩ | ⟨_, rfl⟩
  · rcases frames_running hs hi with ⟨f, hf, _, hpending⟩ | ⟨_, htop⟩
    · exact .inl ⟨f, hf, hpending hlt e he⟩
    · omega
  · rcases refers_running ha hs he hlink with hold | ⟨j, f, hf, rfl, hr⟩
    · exact .inl hold
    · exact .inr (hnext.noted hf hr)

theorem marked_finished (hg : ProofGraph catalog s.stack s.ledger.get? s.table)
    (h : Marked s.stack s.table) {outcome : Outcome} {known : Knowledge}
    (hs : s.step catalog policy = .finished outcome known) : Marked [] known.table := by
  obtain ⟨_, _, hcl⟩ := finished_cases hs
  obtain ⟨_, _, _, htable⟩ := closeTop_finished hcl
  rw [htable]
  refine h.later hg.sound hg.numbered ⟨by simp, fun i p hp => ?_⟩ (by simp)
  exact (recorded_cases hg.numbered hp).imp_right fun h =>
    ⟨s.top, List.mem_append_right _ (List.mem_singleton_self _), h⟩

end Search

variable {catalog : Catalog}

/-- Searches mark whatever a back link leads to. -/
theorem marked_kept (policy : Policy) (hc : catalog.Indexed) : Kept catalog policy
    (fun _ known => (Aligned [] known.ledger.get? ∧
      ProofGraph catalog [] known.ledger.get? known.table) ∧ Marked [] known.table)
    (fun _ s => (Aligned s.stack s.ledger.get? ∧
      ProofGraph catalog s.stack s.ledger.get? s.table) ∧ Marked s.stack s.table) := by
  refine (proofGraph_invariant policy hc).kept.and (J := fun known => Marked [] known.table)
    (R := fun s => Marked s.stack s.table) ?_ ?_ ?_ ?_ ?_ ?_
  · exact ⟨by simp, by simp [Knowledge.empty, ProofTable.get?_empty]⟩
  · exact fun _ h => h
  · exact fun _ _ h _ => h
  · intro past known goal hk h
    have hcarries : Carries [] [Frame.start catalog 0 goal known.table.size] known.table
        known.table.reserve.2 := by
      refine ⟨fun f' hf' => ?_, fun i p hp => .inl (by rwa [ProofTable.get?_reserve] at hp)⟩
      obtain rfl := List.mem_singleton.mp hf'
      exact .inl le_rfl
    refine h.later hk.2.sound hk.2.numbered hcarries fun f' hf' e id he _ => ?_
    obtain rfl := List.mem_singleton.mp hf'
    exact absurd he Frame.not_pending_start
  · exact fun past s next hs hnext h hstep =>
      Search.marked_running hs.1 hs.2 hnext.2.numbered h hstep
  · exact fun past s outcome known hs _ h hstep => Search.marked_finished hs.2 h hstep

end Clausal
