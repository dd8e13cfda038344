import Clausal.Proofs.Invariance
import Clausal.Proofs.Candidates

namespace Clausal

/-- An edge meets a requirement of a rule that a substitution instantiates: it is for the goal that
the pattern becomes, and only a deferrable requirement is met by a promise. -/
structure Edge.Meets (subst : Substitution) (e : Edge) (r : Requirement) : Prop where
  goal : subst.apply r.pattern = .ok e.goal
  deferrable : e.deferrable = r.deferrable
  built : r.deferrable = false → ∃ id, e.link = .built id

/-- Only a deferrable requirement is met by a back link. -/
theorem Edge.Meets.deferrable_of_back {subst : Substitution} {e : Edge} {r : Requirement}
    (h : e.Meets subst r) {id : ProofId} (hl : e.link = .back id) : r.deferrable = true := by
  by_contra hstrict
  obtain ⟨id', hl'⟩ := h.built (by simpa using hstrict)
  cases hl.symm.trans hl'

/-- The edges meet requirements one after the other. -/
def MeetInOrder (subst : Substitution) (edges : List Edge) (body : List Requirement) : Prop :=
  ∀ (i : Nat) (e : Edge), edges[i]? = some e → ∃ r, body[i]? = some r ∧ e.Meets subst r

/-- A proof takes a rule of the catalog whose head matches its goal, and has one edge for each
requirement of the rule, in order. -/
structure Proof.Fits (catalog : Catalog) (p : Proof) (r : Rule) (subst : Substitution) : Prop where
  mem : r ∈ catalog.rules
  id : p.rule = r.id
  name : p.name = r.name
  unify : unify p.goal r.head = .ok subst
  length : p.edges.length = r.body.length
  meet : MeetInOrder subst p.edges r.body

/-- The rules that a frame has left, on trial and met are rules of the catalog, the latter two with
edges for their requirements. -/
structure Frame.Sound (catalog : Catalog) (f : Frame) : Prop where
  remaining : ∀ r ∈ f.remaining, r ∈ catalog.rules
  trial : ∀ t, f.trial = some t → t.rule ∈ catalog.rules ∧ unify f.goal t.rule.head = .ok t.subst ∧
    t.edges.length ≤ t.rule.body.length ∧ MeetInOrder t.subst t.edges t.rule.body
  successes : ∀ s ∈ f.successes, s.rule ∈ catalog.rules ∧ ∃ subst,
    unify f.goal s.rule.head = .ok subst ∧ s.edges.length = s.rule.body.length ∧
      MeetInOrder subst s.edges s.rule.body

/-- An edge of the rule on trial, or of one whose requirements are all met. -/
def Frame.Pending (f : Frame) (e : Edge) : Prop :=
  (∃ t, f.trial = some t ∧ e ∈ t.edges) ∨ ∃ s ∈ f.successes, e ∈ s.edges

section

variable {catalog : Catalog} {policy : Policy} {states : States} {depth : Nat} {f f' top top' : Frame}

theorem MeetInOrder.concat {subst : Substitution} {edges : List Edge} {body : List Requirement}
    {e : Edge} {r : Requirement} (h : MeetInOrder subst edges body)
    (hr : body[edges.length]? = some r) (he : e.Meets subst r) :
    MeetInOrder subst (edges ++ [e]) body := by
  intro i x hx
  rw [List.getElem?_append] at hx
  split at hx
  · exact h i x hx
  next hi =>
    have hz : i - edges.length = 0 := by
      by_contra hne
      simp [hne] at hx
    obtain rfl : e = x := by simpa [hz] using hx
    obtain rfl : i = edges.length := by omega
    exact ⟨r, hr, he⟩

theorem Answers.meets {r : Requirement} {goal : Term} {link : Link} {low : Nat}
    {subst : Substitution} (h : Answers states depth r goal (.ok link) low)
    (ha : subst.apply r.pattern = .ok goal) : Edge.Meets subst ⟨goal, link, r.deferrable⟩ r := by
  refine ⟨ha, rfl, fun hs => ?_⟩
  cases h with
  | back _ hd => simp [hs] at hd
  | @provisional low p chain _ => exact ⟨p.id, rfl⟩
  | @resolved p low _ _ => exact ⟨p.id, rfl⟩

theorem Frame.Sound.trails (h : f.Sound catalog) (ht : f'.Trails f) : f'.Sound catalog := by
  refine ⟨?_, ?_, ?_⟩
  · rw [ht.remaining]
    exact h.remaining
  · intro t hft
    obtain ⟨t₀, ht₀, hr, hs, he, _⟩ := ht.trial_of hft
    rw [hr, hs, he, ht.goal]
    exact h.trial t₀ ht₀
  · rw [ht.successes, ht.goal]
    exact h.successes

theorem Frame.Sound.start (hc : catalog.Indexed) {goal : Term} {id : ProofId} :
    (Frame.start catalog depth goal id).Sound catalog :=
  ⟨fun _ hr => hc.mem_rules_of_candidate hr, by simp [Frame.start], by simp [Frame.start]⟩

theorem Frame.Sound.giveUp {t : Trial} (h : f.Sound catalog) (a : Attempt) :
    (f.giveUp t a).Sound catalog :=
  ⟨h.remaining, by simp [Frame.giveUp], h.successes⟩

theorem Frame.Sound.progress (h : top.Sound catalog) (hp : top.Progress states depth top') :
    top'.Sound catalog := by
  cases hp with
  | @tried rule rest ht hr =>
    have hmem : rule ∈ catalog.rules := h.remaining rule (by simp [hr])
    have hrest : ∀ r ∈ rest, r ∈ catalog.rules := fun r hm => h.remaining r (by simp [hr, hm])
    unfold Frame.tryRule
    split
    next subst hu =>
      refine ⟨hrest, ?_, h.successes⟩
      intro t ht
      obtain rfl : _ = t := Option.some.inj ht
      exact ⟨hmem, hu, by simp, by simp [MeetInOrder]⟩
    next => exact ⟨hrest, by simp [ht], h.successes⟩
  | @succeeded t ht hn =>
    obtain ⟨hmem, hu, hlen, hmeet⟩ := h.trial t ht
    refine ⟨h.remaining, by simp [Frame.succeed], ?_⟩
    intro s hs
    rcases List.mem_append.mp hs with hs | hs
    · exact h.successes s hs
    · obtain rfl : s = ⟨t.rule, t.edges⟩ := by simpa using hs
      have hend : t.rule.body.length ≤ t.edges.length := List.getElem?_eq_none_iff.mp hn
      exact ⟨hmem, t.subst, hu, by dsimp only; omega, hmeet⟩
  | unbound ht hr ha => exact h.giveUp _
  | @received t r goal answer low ht hr ha hans =>
    cases answer with
    | error b =>
      simp only [receive, ht]
      cases b <;> exact h.giveUp _
    | ok link =>
      obtain ⟨hmem, hu, hlen, hmeet⟩ := h.trial t ht
      refine ⟨by simpa [receive, ht] using h.remaining, ?_, by simpa [receive, ht] using h.successes⟩
      intro t' ht'
      have hd : ({ t with low := min t.low low } : Trial).next? = some r := hr
      simp only [receive, ht, hd, Option.some.injEq] at ht'
      subst ht'
      have hlt := (List.getElem?_eq_some_iff.mp hr).1
      have hnew := hmeet.concat hr (hans.meets ha)
      refine ⟨hmem, ?_, by simp; omega, hnew⟩
      simpa [receive, ht] using hu

/-- The proof of a sound frame fits the rule that it takes. -/
theorem Frame.Sound.fits (h : f.Sound catalog) {chain : GoalChain} {p : Proof}
    (hp : f.outcome policy chain = .ok p) :
    p.id = f.id ∧ p.goal = f.goal ∧ (∃ r subst, p.Fits catalog r subst) ∧
      ∀ e ∈ p.edges, f.Pending e := by
  obtain ⟨_, s, hs, rfl⟩ := Frame.outcome_ok hp
  obtain ⟨hmem, subst, hu, hlen, hmeet⟩ := h.successes s hs
  refine ⟨rfl, rfl, ⟨s.rule, subst, hmem, rfl, rfl, hu, hlen, hmeet⟩, ?_⟩
  intro e he
  exact .inr ⟨s, hs, he⟩

theorem Frame.Pending.of_trails {e : Edge} (h : f'.Pending e) (ht : f'.Trails f) :
    f.Pending e := by
  rcases h with ⟨t, hft, he⟩ | ⟨s, hs, he⟩
  · obtain ⟨t₀, ht₀, _, _, hedges, _⟩ := ht.trial_of hft
    exact .inl ⟨t₀, ht₀, hedges ▸ he⟩
  · exact .inr ⟨s, ht.successes ▸ hs, he⟩

theorem Frame.not_pending_start {goal : Term} {id : ProofId} {e : Edge} :
    ¬(Frame.start catalog depth goal id).Pending e := by
  simp [Frame.Pending, Frame.start]

theorem Frame.pending_giveUp {t : Trial} {a : Attempt} {e : Edge}
    (h : (f.giveUp t a).Pending e) : f.Pending e := by
  rcases h with ⟨t', ht', _⟩ | hs
  · simp [Frame.giveUp] at ht'
  · exact .inr hs

theorem Frame.pending_tryRule {rule : Rule} {rest : List Rule} {e : Edge}
    (h : (f.tryRule depth rule rest).Pending e) : f.Pending e := by
  unfold tryRule at h
  split at h
  · rcases h with ⟨t, ht, hm⟩ | hs
    · obtain rfl : _ = t := Option.some.inj ht
      simp at hm
    · exact .inr hs
  · exact h

theorem Frame.pending_succeed {t : Trial} (ht : f.trial = some t) {e : Edge}
    (h : (f.succeed t).Pending e) : f.Pending e := by
  rcases h with ⟨t', ht', _⟩ | ⟨s, hs, hm⟩
  · simp [succeed] at ht'
  · rcases List.mem_append.mp hs with hs | hs
    · exact .inr ⟨s, hs, hm⟩
    · obtain rfl : s = ⟨t.rule, t.edges⟩ := by simpa using hs
      exact .inl ⟨t, ht, hm⟩

/-- An answer adds an edge for the goal that it is given for, if it is a link. -/
theorem Frame.pending_receive {goal : Term} {answer : Except Blocked Link} {low : Nat} {e : Edge}
    (h : (f.receive goal answer low).Pending e) :
    f.Pending e ∨ e.goal = goal ∧ answer = .ok e.link := by
  cases ht : f.trial with
  | none =>
    rw [receive, ht] at h
    exact .inl h
  | some t =>
    cases answer with
    | error b =>
      simp only [receive, ht] at h
      cases b <;> exact .inl (pending_giveUp h)
    | ok link =>
      rcases h with ⟨t', ht', hm⟩ | hs
      · simp only [receive, ht, Option.some.injEq] at ht'
        subst ht'
        rcases List.mem_append.mp hm with hm | hm
        · exact .inl (.inl ⟨t, ht, hm⟩)
        · obtain rfl := List.mem_singleton.mp hm
          exact .inr ⟨rfl, rfl⟩
      · exact .inl (.inr (by simpa [receive, ht] using hs))

/-- A pending edge was pending before, or has just been received as the answer for the next
requirement. -/
theorem Frame.Progress.pending (hp : top.Progress states depth top') {e : Edge}
    (he : top'.Pending e) : top.Pending e ∨ ∃ r low,
      Answers states depth r e.goal (.ok e.link) low ∧ top'.reach ≤ low := by
  cases hp with
  | tried ht hr => exact .inl (pending_tryRule he)
  | succeeded ht hn => exact .inl (pending_succeed ht he)
  | unbound ht hr ha => exact .inl (pending_giveUp he)
  | @received t r goal answer low ht hr ha hans =>
    rcases pending_receive he with he | ⟨rfl, rfl⟩
    · exact .inl he
    · right
      refine ⟨r, low, hans, ?_⟩
      simp [reach, receive, ht]

end

end Clausal
