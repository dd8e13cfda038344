import Clausal.Proofs.Popping
import Clausal.Proofs.Session

namespace Clausal

namespace Search

variable {policy : Policy} {s : Search}

/-- The top frame has tried all its rules. -/
def Closing (s : Search) : Prop :=
  s.top.trial = none ∧ s.top.remaining = []

/-- What is known of goals once the top frame has ended. -/
def closed (policy : Policy) (s : Search) : States :=
  (s.keep (s.verdict policy)).1.get?

theorem verdict_isDepthExceeded : (s.verdict policy).isDepthExceeded = true ↔ s.top.IsCut :=
  Frame.outcome_isDepthExceeded

theorem not_verdict_isDepthExceeded (hc : ¬s.top.IsCut) :
    (s.verdict policy).isDepthExceeded = false :=
  Bool.eq_false_iff.mpr (mt verdict_isDepthExceeded.mp hc)

theorem closed_of_cut (hc : s.top.IsCut) :
    s.closed policy = (s.spread (s.verdict policy)).get? := by
  rw [closed, keep_of_cut (verdict_isDepthExceeded.mpr hc)]

theorem closed_of_cut_states (hc : s.top.IsCut) (g : Term) :
    s.Affected true g ∧ s.closed policy g = none ∨
      ¬s.Affected true g ∧ s.closed policy g = s.ledger.get? g := by
  have ho : (s.verdict policy).isDepthExceeded = true := verdict_isDepthExceeded.mpr hc
  rw [closed_of_cut hc]
  cases hv : s.verdict policy with
  | ok p => simp [hv, Outcome.isDepthExceeded] at ho
  | error failure =>
    rw [hv] at ho
    exact cut_states ho g

/-- A goal that has failed once the top frame has ended is the frame's own, or had failed before, or
was parked on the frame, which failed. -/
theorem closed_failed (h : Aligned s.stack s.ledger.get?) (hc : ¬s.top.IsCut) {g : Term}
    {f : Failure} (hg : s.closed policy g = some (.failed f)) :
    (g = s.top.goal ∧ s.below.length ≤ s.top.low ∧ s.verdict policy = .error f) ∨
      s.ledger.get? g = some (.failed f) ∨
      (s.below.length ≤ s.top.low ∧ (s.verdict policy).succeeded = false ∧ ∃ chain,
        (s.spread (s.verdict policy)).get? g =
          some (.provisional s.below.length (.error f) chain)) := by
  have ho : (s.verdict policy).isDepthExceeded = false := not_verdict_isDepthExceeded hc
  by_cases hgoal : g = s.top.goal
  · rw [hgoal, closed, keep_top ho] at hg
    split at hg
    · cases hg
    next hlow =>
      cases hv : s.verdict policy with
      | ok p =>
        rw [hv] at hg
        cases hg
      | error failure =>
        rw [hv] at hg
        cases hg
        exact .inl ⟨hgoal, Nat.le_of_not_lt hlow, rfl⟩
  · rw [closed, keep_states h hc ho hgoal] at hg
    obtain ⟨before, hb, hcl⟩ := Option.bind_eq_some_iff.mp hg
    rcases GoalState.close?_failed hcl with rfl | ⟨chain, rfl, hlow, hfailed⟩
    · rcases spread_cases ho g with hsame | ⟨_, _, _, _, _, _, _, _, _, _, hspread⟩
      · exact .inr (.inl (hsame.symm.trans hb))
      · cases hspread.symm.trans hb
    · exact .inr (.inr ⟨Nat.le_of_not_lt hlow, hfailed, chain, hb⟩)

end Search

/-- How the frames below a frame that the depth bound cut short go on: the one next to it is cut
short as well, and rests on what that frame rests on. -/
inductive Cuts (states : States) (low : Nat) : List Frame → List Frame → Prop
  | last : Cuts states low [] []
  | next {below parent top} : top.IsCut → parent.Progress states below.length top →
      top.reach ≤ low → Cuts states low (below ++ [parent]) (below ++ [top])

section

variable {states : States} {low : Nat} {frames frames' : List Frame} {i : Nat} {f : Frame}

theorem Cuts.earlier (h : Cuts states low frames frames') (hf : frames'[i]? = some f) :
    CutFrom frames' i ∧ ∃ f₀, frames[i]? = some f₀ ∧
      (f = f₀ ∨ i + 1 = frames.length ∧ f₀.Progress states i f) := by
  cases h with
  | last => simp at hf
  | @next below parent top hc hp hr =>
    rcases getElem?_concat_cases hf with ⟨hi, hf⟩ | ⟨rfl, rfl⟩
    · exact ⟨hc.cutFrom (Nat.le_of_lt hi), f, getElem?_concat_below hf, .inl rfl⟩
    · exact ⟨hc.cutFrom le_rfl, parent, getElem?_concat_top, .inr ⟨by simp, hp⟩⟩

theorem Cuts.later (h : Cuts states low frames frames') (hf : frames[i]? = some f) :
    ∃ f', frames'[i]? = some f' ∧ f'.reach ≤ f.reach ∧ (i + 1 = frames.length → f'.reach ≤ low) := by
  cases h with
  | last => simp at hf
  | @next below parent top hc hp hr =>
    rcases getElem?_concat_cases hf with ⟨hi, hf⟩ | ⟨rfl, rfl⟩
    · refine ⟨f, getElem?_concat_below hf, le_rfl, fun hl => ?_⟩
      simp at hl
      omega
    · exact ⟨top, getElem?_concat_top, hp.reach_le, fun _ => hr⟩

end

/-- A property of stack, ledger and proofs, given the search states so far, that every way for a
search to get on keeps. -/
structure Carried (catalog : Catalog) (policy : Policy)
    (I : List Search → List Frame → States → ProofTable → Prop) : Prop where
  past : ∀ {past s frames states table}, I past frames states table →
    I (past ++ [s]) frames states table
  push : ∀ {past frames states states' table goal}, Aligned frames states →
    I past frames states table → states goal = none →
    (∀ g, states' g = if g = goal then some (.inProgress frames.length table.size) else states g) →
    Aligned (frames ++ [Frame.start catalog frames.length goal table.size]) states' →
    I past (frames ++ [Frame.start catalog frames.length goal table.size]) states' table.reserve.2
  progress : ∀ {past below top top' states table}, Aligned (below ++ [top]) states →
    I past (below ++ [top]) states table → top.Progress states below.length top' →
    I past (below ++ [top']) states table
  refer : ∀ {past frames states table} (j : Nat), I past frames states table →
    I past (frames.modify j Frame.refer) states table
  keep : ∀ {past s}, Aligned s.stack s.ledger.get? → I past s.stack s.ledger.get? s.table →
    s.top.trial = none → s.top.remaining = [] → ¬s.top.IsCut →
    (s.verdict policy).isDepthExceeded = false →
    I (past ++ [s])
      ((s.keep (s.verdict policy)).2.modify (s.below.length - 1) (Frame.lower s.top.low))
      (s.keep (s.verdict policy)).1.get? (s.recorded policy)
  cut : ∀ {past s failure frames}, Aligned s.stack s.ledger.get? →
    I past s.stack s.ledger.get? s.table → s.top.trial = none → s.top.remaining = [] →
    s.top.IsCut → s.verdict policy = .error failure → failure.isDepthExceeded = true →
    Cuts (s.spread (.error failure)).get? s.top.low s.below frames →
    I (past ++ [s]) frames (s.spread (.error failure)).get? s.table

/-- A property that searches carry on and that holds of whatever they start from. -/
structure Invariant (catalog : Catalog) (policy : Policy)
    (I : List Search → List Frame → States → ProofTable → Prop) : Prop extends
    Carried catalog policy I where
  nothing : I [] [] (fun _ => none) ProofTable.empty
  forget : ∀ {past states table}, I past [] states table → I past [] (fun _ => none) table

section

variable {catalog : Catalog} {policy : Policy}

/-- Hits and misses have no part in what is known of goals. -/
theorem Ledger.get?_congr {ledger ledger' : Ledger} (h : ledger.entries = ledger'.entries) :
    ledger.get? = ledger'.get? := by
  funext g
  simp only [get?, h]

theorem Knowledge.first_get? {known : Knowledge} {goal : Term} (g : Term) : (known.first catalog goal).ledger.get? g =
    if g = goal then some (.inProgress 0 known.table.size) else known.ledger.get? g :=
  Search.push_get? _ _ _ _

theorem Knowledge.Searches.aligned {known : Knowledge} {goal : Term} (h : known.Searches policy goal)
    (ha : Aligned [] known.ledger.get?) :
    Aligned (known.first catalog goal).stack (known.first catalog goal).ledger.get? := by
  have hn := ha.eq_none h.unresolved h.unfailed
  show Aligned ([] ++ [Frame.start catalog 0 goal known.table.size])
    (known.first catalog goal).ledger.get?
  exact ha.push hn first_get? (by simp)

end

namespace Carried

variable {catalog : Catalog} {policy : Policy}
  {I : List Search → List Frame → States → ProofTable → Prop} {s next : Search}

theorem running (inv : Carried catalog policy I) (past : List Search)
    (ha : Aligned s.stack s.ledger.get?)
    (hi : I past s.stack s.ledger.get? s.table) (hs : s.step catalog policy = .running next) :
    I (past ++ [s]) next.stack next.ledger.get? next.table := by
  rcases Search.running_cases hs with ⟨hl, ht, top, hp, hst⟩ |
    ⟨t, r, goal, ht, hr, happ, hg, _, rfl⟩ | ⟨ht, hr, hcl⟩
  · have hnext := inv.past (s := s) (inv.progress ha hi hp)
    rw [hl, ht]
    rcases hst with hst | ⟨j, hst⟩
    · rw [hst]
      exact hnext
    · rw [hst]
      exact inv.refer j hnext
  · have hnext := Search.aligned_running ha hs
    have he : ∀ g, (Search.push catalog { s.toKnowledge with ledger := s.ledger.miss } s.stack
        goal).ledger.get? g = if g = goal then some (.inProgress s.stack.length s.table.size)
          else s.ledger.get? g := fun g => Search.push_get? _ _ _ _
    exact inv.past (inv.push ha hi hg he hnext)
  · have htable : next.table = s.recorded policy := by
      obtain ⟨_, _, _, htable, _⟩ := Search.closeTop_running hcl
      exact htable
    have hkeep := s.keep_length (s.verdict policy)
    cases Search.closes ha hcl with
    | @kept parent hc ho hk hl hp =>
      have hnext := inv.keep ha hi ht hr hc ho
      have hlen : s.below.length - 1 = next.below.length := by
        rw [hk] at hkeep
        simp at hkeep
        omega
      rw [hk, hlen, Search.modify_last, ← hl, ← htable] at hnext
      refine inv.progress ?_ hnext hp
      have halign := (Search.aligned_keep ha hc ho).lower s.top.low next.below.length
      rw [hk, ← hl, Search.modify_last] at halign
      exact halign
    | @cut parent failure hc hv hf hb hl hcut hreach hp =>
      have hnext : I (past ++ [s]) (next.below ++ [next.top]) (s.spread (.error failure)).get?
          s.table := by
        apply inv.cut ha hi ht hr hc hv hf
        rw [hb, ← hl]
        exact .next hcut hp hreach
      have hrec : s.recorded policy = s.table := by simp [Search.recorded, hv]
      rw [htable, hrec, hl]
      exact hnext

theorem finished (inv : Carried catalog policy I) (past : List Search)
    (ha : Aligned s.stack s.ledger.get?)
    (hi : I past s.stack s.ledger.get? s.table) {outcome : Outcome} {known : Knowledge}
    (hs : s.step catalog policy = .finished outcome known) :
    Aligned [] known.ledger.get? ∧ I (past ++ [s]) [] known.ledger.get? known.table := by
  obtain ⟨ht, hr, hcl⟩ := Search.finished_cases hs
  obtain ⟨hb, rfl, hl, htable⟩ := Search.closeTop_finished hcl
  rw [hl, htable]
  by_cases hc : s.top.IsCut
  · have ho : (s.verdict policy).isDepthExceeded = true := Frame.outcome_isDepthExceeded.mpr hc
    cases hv : s.verdict policy with
    | ok p => simp [hv, Outcome.isDepthExceeded] at ho
    | error failure =>
      rw [hv] at ho
      have hrec : s.recorded policy = s.table := by simp [Search.recorded, hv]
      rw [Search.keep_of_cut ho, hrec]
      refine ⟨Search.aligned_cut_last ha ho hb, ?_⟩
      apply inv.cut ha hi ht hr hc hv ho
      rw [hb]
      exact .last
  · have ho : (s.verdict policy).isDepthExceeded = false :=
      Bool.eq_false_iff.mpr (mt Frame.outcome_isDepthExceeded.mp hc)
    have hnil : (s.keep (s.verdict policy)).2 = [] := by
      rw [← List.length_eq_zero_iff, s.keep_length, hb]
      rfl
    have halign := Search.aligned_keep ha hc ho
    have hnext := inv.keep ha hi ht hr hc ho
    rw [hnil] at halign hnext
    exact ⟨halign, by simpa using hnext⟩

/-- What searches carry on holds after a call if it held before. -/
theorem prove (inv : Carried catalog policy I) (past : List Search) {known after : Knowledge}
    {budget : Nat} {goal : Term} {outcome : Outcome} (ha : Aligned [] known.ledger.get?)
    (hi : I past [] known.ledger.get? known.table)
    (h : known.prove catalog policy budget goal = some (outcome, after)) :
    ∃ past', I past' [] after.ledger.get? after.table := by
  rcases known.searches_or catalog policy goal with hs | hat
  · have hnone := ha.eq_none hs.unresolved hs.unfailed
    have hfirst : I past (known.first catalog goal).stack (known.first catalog goal).ledger.get?
        (known.first catalog goal).table :=
      inv.push ha hi hnone Knowledge.first_get? (hs.aligned ha)
    rw [hs.prove] at h
    obtain ⟨before, last, _, ⟨hal, hil⟩, hstep⟩ := Search.run_finished past
      (S := fun past s => Aligned s.stack s.ledger.get? ∧ I past s.stack s.ledger.get? s.table)
      (fun hs hn => ⟨Search.aligned_running hs.1 hn, inv.running _ hs.1 hs.2 hn⟩)
      ⟨hs.aligned ha, hfirst⟩ h
    exact ⟨_, (inv.finished before hal hil hstep).2⟩
  · obtain ⟨_, _, ledger, hp, he⟩ := hat budget
    cases hp.symm.trans h
    have hget : ledger.get? = known.ledger.get? := Ledger.get?_congr he
    simp only [hget]
    exact ⟨past, hi⟩

/-- What searches carry on goes on with a property of the ledger that fresh and closed frames
keep. -/
theorem and {J : List Search → States → Prop} (inv : Carried catalog policy I)
    (later : ∀ past s states, J past states → J (past ++ [s]) states)
    (push : ∀ past states states' goal n id, J past states → states goal = none →
      (∀ g, states' g = if g = goal then some (.inProgress n id) else states g) → J past states')
    (keep : ∀ past s, Aligned s.stack s.ledger.get? → I past s.stack s.ledger.get? s.table →
      s.Closing → ¬s.top.IsCut → J past s.ledger.get? → J (past ++ [s]) (s.closed policy))
    (cut : ∀ past s, Aligned s.stack s.ledger.get? → I past s.stack s.ledger.get? s.table →
      s.Closing → s.top.IsCut → J past s.ledger.get? → J (past ++ [s]) (s.closed policy)) :
    Carried catalog policy fun past frames states table =>
      I past frames states table ∧ J past states where
  past h := ⟨inv.past h.1, later _ _ _ h.2⟩
  push ha h hg hs hn := ⟨inv.push ha h.1 hg hs hn, push _ _ _ _ _ _ h.2 hg hs⟩
  progress ha h hp := ⟨inv.progress ha h.1 hp, h.2⟩
  refer j h := ⟨inv.refer j h.1, h.2⟩
  keep ha h ht hr hc ho :=
    ⟨inv.keep ha h.1 ht hr hc ho, keep _ _ ha h.1 ⟨ht, hr⟩ hc h.2⟩
  cut := by
    intro past s failure frames ha h ht hr hc hv hf hcuts
    have hclosed : s.closed policy = (s.spread (.error failure)).get? := by
      rw [Search.closed_of_cut hc, hv]
    refine ⟨inv.cut ha h.1 ht hr hc hv hf hcuts, ?_⟩
    rw [← hclosed]
    exact cut _ _ ha h.1 ⟨ht, hr⟩ hc h.2

end Carried

namespace Invariant

variable {catalog : Catalog} {policy : Policy}
  {I : List Search → List Frame → States → ProofTable → Prop}

/-- An invariant of searches holds of all that a prover knows between calls. -/
theorem kept (inv : Invariant catalog policy I) : Kept catalog policy
    (fun past known => Aligned [] known.ledger.get? ∧ I past [] known.ledger.get? known.table)
    (fun past s => Aligned s.stack s.ledger.get? ∧ I past s.stack s.ledger.get? s.table) where
  nothing := ⟨aligned_nil.mpr (by simp [Knowledge.empty, Ledger.empty, Ledger.get?]), inv.nothing⟩
  forget := by
    rintro past known ⟨_, hi⟩
    exact ⟨aligned_nil.mpr (by simp [Ledger.empty, Ledger.get?]), inv.forget hi⟩
  counted := by
    rintro past known ledger ⟨ha, hi⟩ he
    simp only [Ledger.get?_congr he]
    exact ⟨ha, hi⟩
  push := by
    rintro past known goal ⟨ha, hi⟩ _ hr hf
    have hg := ha.eq_none hr hf
    have he : ∀ g, (Search.push catalog known [] goal).ledger.get? g =
        if g = goal then some (.inProgress 0 known.table.size) else known.ledger.get? g :=
      fun g => Search.push_get? _ _ _ _
    have hnext : Aligned ([] ++ [Frame.start catalog 0 goal known.table.size])
        (Search.push catalog known [] goal).ledger.get? :=
      ha.push hg he (by simp)
    exact ⟨hnext, inv.push ha hi hg he hnext⟩
  running := by
    rintro past s next ⟨ha, hi⟩ hs
    exact ⟨Search.aligned_running ha hs, inv.running past ha hi hs⟩
  finished := by
    rintro past s outcome known ⟨ha, hi⟩ hs
    exact inv.finished past ha hi hs

/-- An invariant goes on with a property of the ledger that fresh and closed frames keep. -/
theorem and {J : List Search → States → Prop} (inv : Invariant catalog policy I)
    (nothing : ∀ past, J past fun _ => none)
    (later : ∀ past s states, J past states → J (past ++ [s]) states)
    (push : ∀ past states states' goal n id, J past states → states goal = none →
      (∀ g, states' g = if g = goal then some (.inProgress n id) else states g) → J past states')
    (keep : ∀ past s, Aligned s.stack s.ledger.get? → I past s.stack s.ledger.get? s.table →
      s.Closing → ¬s.top.IsCut → J past s.ledger.get? → J (past ++ [s]) (s.closed policy))
    (cut : ∀ past s, Aligned s.stack s.ledger.get? → I past s.stack s.ledger.get? s.table →
      s.Closing → s.top.IsCut → J past s.ledger.get? → J (past ++ [s]) (s.closed policy)) :
    Invariant catalog policy fun past frames states table =>
      I past frames states table ∧ J past states where
  toCarried := inv.toCarried.and later push keep cut
  nothing := ⟨inv.nothing, nothing []⟩
  forget h := ⟨inv.forget h.1, nothing _⟩

end Invariant

end Clausal
