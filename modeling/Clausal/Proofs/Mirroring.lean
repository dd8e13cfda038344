import Clausal.Proofs.Moves
import Clausal.Proofs.Renaming
import Mathlib.Data.List.Forall2

namespace Clausal

section

variable {α β γ : Type} {R : α → β → Prop} {l : List α} {l' : List β}

theorem map_eq_of_forall₂ {f : α → γ} {g : β → γ} (hR : ∀ a b, R a b → g b = f a)
    (h : List.Forall₂ R l l') : l'.map g = l.map f := by
  induction h with
  | nil => rfl
  | cons hab _ ih => rw [List.map_cons, List.map_cons, hR _ _ hab, ih]

theorem forall₂_modify {f : α → α} {g : β → β} (hR : ∀ a b, R a b → R (f a) (g b))
    (h : List.Forall₂ R l l') (i : Nat) : List.Forall₂ R (l.modify i f) (l'.modify i g) := by
  induction h generalizing i with
  | nil => simp
  | cons hab hrest ih =>
    cases i with
    | zero => simpa using ⟨hR _ _ hab, hrest⟩
    | succ i => simpa using ⟨hab, ih i⟩

theorem forall₂_concat {a : α} {b : β} :
    List.Forall₂ R (l ++ [a]) (l' ++ [b]) ↔ List.Forall₂ R l l' ∧ R a b := by
  rw [← List.forall₂_reverse_iff, List.reverse_concat, List.reverse_concat, List.forall₂_cons,
    List.forall₂_reverse_iff, and_comm]

end

/-- A rule and its renamed rule are on trial, with the same requirements met, and ask for the same
goals. -/
structure Trial.Mirrors (ρ : RuleId → Variable → Variable) (t t' : Trial) : Prop where
  rule : t'.rule = t.rule.renamed ρ
  renamable : t.rule.Renamable ρ
  edges : t'.edges = t.edges
  low : t'.low = t.low
  asks : ∀ q ∈ t.rule.body, ∃ subgoal, t.subst.apply q.pattern = .ok subgoal ∧
    t'.subst.apply (q.pattern.renamed (ρ t.rule.id)) = .ok subgoal

def Success.renamed (ρ : RuleId → Variable → Variable) (s : Success) : Success :=
  { s with rule := s.rule.renamed ρ }

/-- Two frames differ in the names of variables only. -/
structure Frame.Mirrors (ρ : RuleId → Variable → Variable) (f f' : Frame) : Prop where
  goal : f'.goal = f.goal
  id : f'.id = f.id
  recursive : f'.recursive = f.recursive
  parked : f'.parked = f.parked
  remaining : f'.remaining = f.remaining.map (Rule.renamed ρ)
  untried : ∀ r ∈ f.remaining, r.Renamable ρ
  low : f'.low = f.low
  trial : Option.Rel (Trial.Mirrors ρ) f.trial f'.trial
  successes : f'.successes = f.successes.map (Success.renamed ρ)
  succeeded : ∀ s ∈ f.successes, s.rule.Renamable ρ
  attempted : f'.attempted.map Attempt.blurred = f.attempted.map Attempt.blurred

section

variable {ρ : RuleId → Variable → Variable} {successes : List Success}

theorem mostSpecificAt_renamed (h : ∀ s ∈ successes, s.rule.Renamable ρ) {i : Nat} {s' : Success} :
    MostSpecificAt (successes.map (Success.renamed ρ)) i s' ↔
      ∃ s, MostSpecificAt successes i s ∧ s.renamed ρ = s' := by
  have hdominates : ∀ (i j : Nat) s other, successes[i]? = some s → successes[j]? = some other →
      (s.renamed ρ).rule.head.dominates (other.renamed ρ).rule.head =
        s.rule.head.dominates other.rule.head := fun i j s other hs ho =>
    Term.dominates_renamed (h s (List.mem_of_getElem? hs)).apart
      (h other (List.mem_of_getElem? ho)).apart
  simp only [MostSpecificAt, List.getElem?_map, Option.map_eq_some_iff]
  constructor
  · rintro ⟨⟨s, hs, rfl⟩, hall⟩
    refine ⟨s, ⟨hs, fun j other hj hne => ?_⟩, rfl⟩
    rw [← hdominates i j s other hs hj]
    exact hall j _ ⟨other, hj, rfl⟩ hne
  · rintro ⟨s, ⟨hs, hall⟩, rfl⟩
    refine ⟨⟨s, hs, rfl⟩, ?_⟩
    rintro j _ ⟨other, hj, rfl⟩ hne
    rw [hdominates i j s other hs hj]
    exact hall j other hj hne

/-- The tie among renamed rules goes as it goes among the rules. -/
theorem Policy.choose?_renamed (policy : Policy) (h : ∀ s ∈ successes, s.rule.Renamable ρ) :
    policy.choose? (successes.map (Success.renamed ρ)) =
      (policy.choose? successes).map (Success.renamed ρ) := by
  have hmost : mostSpecific? (successes.map (Success.renamed ρ)) =
      (mostSpecific? successes).map (Success.renamed ρ) := by
    refine Option.ext fun s' => ?_
    simp only [mostSpecific?_eq_some_iff, Option.map_eq_some_iff, mostSpecificAt_renamed h]
    constructor
    · rintro ⟨i, s, hs, he⟩
      exact ⟨s, ⟨i, hs⟩, he⟩
    · rintro ⟨s, ⟨i, hs⟩, he⟩
      exact ⟨i, s, hs, he⟩
  unfold choose?
  cases policy.tieBreak with
  | strict => rfl
  | mostSpecific => exact hmost

end

namespace Frame.Mirrors

variable {ρ : RuleId → Variable → Variable} {catalog : Catalog} {f f' : Frame} {t t' : Trial}

theorem start (hi : catalog.Indexed) (hc : ∀ r ∈ catalog.rules, r.Renamable ρ) (depth : Nat)
    (goal : Term) (id : ProofId) :
    (Frame.start catalog depth goal id).Mirrors ρ
      (Frame.start (catalog.renamed ρ) depth goal id) where
  goal := rfl
  id := rfl
  recursive := rfl
  parked := rfl
  remaining := catalog.candidates_renamed ρ goal
  untried r hr := hc r (hi.mem_rules_of_candidate hr)
  low := rfl
  trial := .none
  successes := rfl
  succeeded _ hs := nomatch hs
  attempted := rfl

theorem tryRule (h : f.Mirrors ρ f') (depth : Nat) {r : Rule} {rest : List Rule}
    (hr : ∀ x ∈ r :: rest, x.Renamable ρ) :
    (f.tryRule depth r rest).Mirrors ρ
      (f'.tryRule depth (r.renamed ρ) (rest.map (Rule.renamed ρ))) := by
  have hrule : r.Renamable ρ := hr r List.mem_cons_self
  have hrest : ∀ x ∈ rest, x.Renamable ρ := fun x hx => hr x (List.mem_cons_of_mem r hx)
  have halike : Substitution.MatchedAlike (ρ r.id) r.head.occurrences (unify f.goal r.head)
      (unify f'.goal (r.renamed ρ).head) := by
    rw [h.goal]
    exact Substitution.unify_renamed hrule.apart f.goal
  unfold Frame.tryRule
  generalize hu : unify f.goal r.head = a, unify f'.goal (r.renamed ρ).head = a' at halike ⊢
  cases halike with
  | @ok s s' hs =>
    have ht : Trial.Mirrors ρ ⟨r, s, [], depth⟩ ⟨r.renamed ρ, s', [], depth⟩ :=
      ⟨rfl, hrule, rfl, rfl, fun q hq => hrule.asks hu hs hq⟩
    exact { h with remaining := rfl, untried := hrest, trial := .some ht }
  | @error m m' hm =>
    have hattempt : (Attempt.mismatch (r.renamed ρ).name m').blurred =
        (Attempt.mismatch r.name m).blurred := congrArg (Attempt.mismatch r.name) hm
    refine { h with remaining := rfl, untried := hrest, attempted := ?_ }
    simp only [List.map_append, List.map_cons, List.map_nil, h.attempted, hattempt]

theorem succeed (h : f.Mirrors ρ f') (ht : t.Mirrors ρ t') :
    (f.succeed t).Mirrors ρ (f'.succeed t') := by
  refine { h with trial := .none, low := ?_, successes := ?_, succeeded := ?_ }
  · simp only [Frame.succeed, h.low, ht.low]
  · simp only [Frame.succeed, h.successes, ht.rule, ht.edges, List.map_append]
    rfl
  · intro s hs
    rcases List.mem_append.mp hs with hs | hs
    · exact h.succeeded s hs
    · rw [List.mem_singleton.mp hs]
      exact ht.renamable

theorem giveUp (h : f.Mirrors ρ f') (ht : t.Mirrors ρ t') {a a' : Attempt}
    (ha : a'.blurred = a.blurred) : (f.giveUp t a).Mirrors ρ (f'.giveUp t' a') := by
  refine { h with trial := .none, low := ?_, attempted := ?_ }
  · simp only [Frame.giveUp, h.low, ht.low]
  · simp only [Frame.giveUp, List.map_append, List.map_cons, List.map_nil, h.attempted, ha]

end Frame.Mirrors

theorem Trial.Mirrors.next? {ρ : RuleId → Variable → Variable} {t t' : Trial}
    (h : t.Mirrors ρ t') : t'.next? = t.next?.map (Requirement.renamed (ρ t.rule.id)) := by
  simp only [Trial.next?, h.rule, h.edges, Rule.renamed, List.getElem?_map]

namespace Frame.Mirrors

variable {ρ : RuleId → Variable → Variable} {f f' : Frame}

theorem receive (h : f.Mirrors ρ f') (subgoal : Term) {answer answer' : Except Blocked Link}
    (ha : AnsweredAlike answer answer') (low : Nat) :
    (f.receive subgoal answer low).Mirrors ρ (f'.receive subgoal answer' low) := by
  have htrial := h.trial
  unfold Frame.receive
  generalize f.trial = trial, f'.trial = trial' at htrial ⊢
  cases htrial with
  | none => exact h
  | @some t t' ht =>
    have hrested : Trial.Mirrors ρ { t with low := min t.low low }
        { t' with low := min t'.low low } := { ht with low := by rw [ht.low] }
    have hname : t'.rule.name = t.rule.name := by
      rw [ht.rule]
      rfl
    cases ha with
    | linked link =>
      have hedge : Edge.mk subgoal link (t'.next?.elim false Requirement.deferrable) =
          Edge.mk subgoal link (t.next?.elim false Requirement.deferrable) := by
        rw [ht.next?]
        cases t.next? <;> rfl
      refine { h with trial := .some { hrested with edges := ?_ } }
      exact congrArg₂ (fun edges edge => edges ++ [edge]) ht.edges hedge
    | cycle =>
      refine h.giveUp hrested ?_
      simp only [hname, ht.edges]
    | failed hf =>
      refine h.giveUp hrested ?_
      simp only [Attempt.blurred, hname, ht.edges, hf]

theorem refer (h : f.Mirrors ρ f') : f.refer.Mirrors ρ f'.refer :=
  { h with recursive := rfl }

theorem park (h : f.Mirrors ρ f') (goals : List Term) :
    (f.park goals).Mirrors ρ (f'.park goals) :=
  { h with parked := congrArg (· ++ goals) h.parked }

/-- Frames that differ in the names of variables only come to the same outcome. -/
theorem outcome (h : f.Mirrors ρ f') (policy : Policy) (chain : GoalChain) :
    (f'.outcome policy chain).blurred = (f.outcome policy chain).blurred := by
  have hcut : Option.Rel (fun g g' => g'.blurred = g.blurred) (cutShort? f.attempted)
      (cutShort? f'.attempted) := by
    refine rel_of_map_eq ?_
    rw [← cutShort?_blurred, ← cutShort?_blurred, h.attempted]
  have hunproved : (unproved f'.goal chain f'.attempted).blurred =
      (unproved f.goal chain f.attempted).blurred := by
    rw [blurred_unproved, blurred_unproved, h.attempted, h.goal]
  have hproof : ∀ s : Success, f'.proofBy (s.renamed ρ) = f.proofBy s := fun s => by
    simp only [Frame.proofBy, h.id, h.goal, h.recursive]
    rfl
  have hnames : (f.successes.map (Success.renamed ρ)).map (fun s => s.rule.name) =
      f.successes.map fun s => s.rule.name := by
    rw [List.map_map]
    rfl
  have hchoice := policy.choose?_renamed h.succeeded
  unfold Frame.outcome
  rw [h.successes]
  generalize cutShort? f.attempted = cut, cutShort? f'.attempted = cut',
    f.successes = successes at hcut hnames hchoice ⊢
  cases hcut with
  | some hg => exact congrArg Except.error hg
  | none =>
    cases successes with
    | nil => exact congrArg Except.error hunproved
    | cons s rest =>
      cases rest with
      | nil => exact congrArg Except.ok (hproof s)
      | cons r rest =>
        simp only [List.map_cons] at hnames hchoice ⊢
        rw [hchoice]
        cases policy.choose? (s :: r :: rest) with
        | some s => exact congrArg Except.ok (hproof s)
        | none => simp only [Option.map_none, Outcome.blurred, Failure.blurred, h.goal, hnames]

end Frame.Mirrors

/-- Two searches differ in the names of variables only. -/
structure Search.Mirrors (ρ : RuleId → Variable → Variable) (s s' : Search) : Prop where
  known : s'.toKnowledge.blurred = s.toKnowledge.blurred
  below : List.Forall₂ (Frame.Mirrors ρ) s.below s'.below
  top : s.top.Mirrors ρ s'.top

/-- The steps of two such searches: both go on, or both end with the same outcome. -/
inductive Step.Mirrors (ρ : RuleId → Variable → Variable) : Step → Step → Prop
  | running {s s' : Search} : s.Mirrors ρ s' → Mirrors ρ (.running s) (.running s')
  | finished {outcome outcome' : Outcome} {known known' : Knowledge} :
      outcome'.blurred = outcome.blurred → known'.blurred = known.blurred →
      Mirrors ρ (.finished outcome known) (.finished outcome' known')

/-- An answer to a requirement, for the search that goes on with it. -/
def AnswerMirrors (ρ : RuleId → Variable → Variable)
    (a a' : Search × Except Blocked Link × Nat) : Prop :=
  a.1.Mirrors ρ a'.1 ∧ AnsweredAlike a.2.1 a'.2.1 ∧ a'.2.2 = a.2.2

namespace Search.Mirrors

variable {ρ : RuleId → Variable → Variable} {catalog : Catalog} {policy : Policy} {s s' : Search}

theorem ledger (h : s.Mirrors ρ s') : s'.ledger.blurred = s.ledger.blurred :=
  Knowledge.ledger_alike h.known

theorem goals (h : s.Mirrors ρ s') : s'.below.map Frame.goal = s.below.map Frame.goal :=
  map_eq_of_forall₂ (fun _ _ hf => hf.goal) h.below

theorem stack (h : s.Mirrors ρ s') : List.Forall₂ (Frame.Mirrors ρ) s.stack s'.stack :=
  forall₂_concat.mpr ⟨h.below, h.top⟩

theorem chain (h : s.Mirrors ρ s') : s'.chain = s.chain :=
  map_eq_of_forall₂ (fun _ _ hf => hf.goal) h.stack

theorem length (h : s.Mirrors ρ s') : s'.below.length = s.below.length :=
  h.below.length_eq.symm

theorem push (hi : catalog.Indexed) (hc : ∀ r ∈ catalog.rules, r.Renamable ρ)
    {known known' : Knowledge} {below below' : List Frame} (hk : known'.blurred = known.blurred)
    (hb : List.Forall₂ (Frame.Mirrors ρ) below below') (goal : Term) :
    (push catalog known below goal).Mirrors ρ (push (catalog.renamed ρ) known' below' goal) := by
  have hledger := Knowledge.ledger_alike hk
  have htable := Knowledge.table_alike hk
  have hlength : below'.length = below.length := hb.length_eq.symm
  refine ⟨?_, hb, ?_⟩
  · simp only [Search.push, Knowledge.blurred, Ledger.blurred_set, hledger, htable, hlength]
  · simp only [Search.push, htable, hlength]
    exact .start hi hc _ _ _

theorem refer (h : s.Mirrors ρ s') (frame : Nat) : (s.refer frame).Mirrors ρ (s'.refer frame) := by
  unfold Search.refer
  rw [h.length]
  split
  · exact { h with below := forall₂_modify (fun _ _ hf => hf.refer) h.below frame }
  · exact { h with top := h.top.refer }

theorem receive (h : s.Mirrors ρ s') (goal : Term) {answer answer' : Except Blocked Link}
    (ha : AnsweredAlike answer answer') (low : Nat) :
    (s.receive goal answer low).Mirrors ρ (s'.receive goal answer' low) :=
  { h with top := h.top.receive goal ha low }

theorem hit (h : s.Mirrors ρ s') : Search.Mirrors ρ { s with ledger := s.ledger.hit }
    { s' with ledger := s'.ledger.hit } :=
  { h with known := Knowledge.hit_alike h.known }

theorem miss (h : s.Mirrors ρ s') : Search.Mirrors ρ { s with ledger := s.ledger.miss }
    { s' with ledger := s'.ledger.miss } :=
  { h with known := Knowledge.miss_alike h.known }

theorem answer? (h : s.Mirrors ρ s') (goal : Term) (deferrable : Bool) :
    Option.Rel (AnswerMirrors ρ) (s.answer? goal deferrable) (s'.answer? goal deferrable) := by
  have hseen : ∀ {f f' : Failure}, f'.blurred = f.blurred →
      (f'.seenFrom s'.chain).blurred = (f.seenFrom s.chain).blurred := fun hf => by
    rw [h.chain]
    exact Failure.seenFrom_alike hf s.chain
  have hdepth : s'.depth + 1 = s.depth + 1 := congrArg (· + 1) h.length
  have hget := Ledger.alike_of_blurred h.ledger goal
  unfold Search.answer?
  generalize s.ledger.get? goal = known, s'.ledger.get? goal = known' at hget ⊢
  cases hget with
  | none => exact .none
  | some hstate =>
    cases hstate with
    | inProgress frame id =>
      cases deferrable with
      | true => exact .some ⟨h.refer frame, .linked _, rfl⟩
      | false => exact .some ⟨h, .cycle, rfl⟩
    | provisional low chain ho =>
      cases ho with
      | ok p => exact .some ⟨h.hit, .linked _, rfl⟩
      | error hf => exact .some ⟨h.hit, .failed (hseen hf), rfl⟩
    | resolved p => exact .some ⟨h.hit, .linked _, hdepth⟩
    | failed hf => exact .some ⟨h.hit, .failed (hseen hf), hdepth⟩

theorem descend (h : s.Mirrors ρ s') (hi : catalog.Indexed)
    (hc : ∀ r ∈ catalog.rules, r.Renamable ρ) (goal : Term) :
    (s.descend catalog policy goal).Mirrors ρ (s'.descend (catalog.renamed ρ) policy goal) := by
  have hdepth : s'.depth = s.depth := h.length
  unfold Search.descend
  dsimp only
  rw [h.chain, hdepth]
  cases policy.refusal? s.chain goal with
  | none => exact push hi hc h.miss.known h.stack goal
  | some f => exact h.miss.receive goal (.failed rfl) (s.depth + 1)

theorem meet (h : s.Mirrors ρ s') (hi : catalog.Indexed)
    (hc : ∀ r ∈ catalog.rules, r.Renamable ρ) {t t' : Trial} (ht : t.Mirrors ρ t')
    {q : Requirement} (hq : q ∈ t.rule.body) :
    (s.meet catalog policy t q).Mirrors ρ
      (s'.meet (catalog.renamed ρ) policy t' (q.renamed (ρ t.rule.id))) := by
  obtain ⟨goal, hgoal, hgoal'⟩ := ht.asks q hq
  have hanswer := h.answer? goal q.deferrable
  have hdeferrable : (q.renamed (ρ t.rule.id)).deferrable = q.deferrable := rfl
  have hpattern : (q.renamed (ρ t.rule.id)).pattern = q.pattern.renamed (ρ t.rule.id) := rfl
  unfold Search.meet
  rw [hpattern, hgoal, hgoal', hdeferrable]
  dsimp only
  generalize s.answer? goal q.deferrable = a, s'.answer? goal q.deferrable = a' at hanswer ⊢
  cases hanswer with
  | none => exact h.descend hi hc goal
  | @some a a' ha =>
    obtain ⟨next, answer, low⟩ := a
    obtain ⟨next', answer', low'⟩ := a'
    obtain ⟨hnext, hanswer, hlow⟩ := ha
    dsimp only at hlow
    subst hlow
    exact hnext.receive goal hanswer low'

/-- An outcome is kept alike in both searches. -/
theorem keep (h : s.Mirrors ρ s') {o o' : Outcome} (ho : o'.blurred = o.blurred) :
    (s'.keep o').1.blurred = (s.keep o).1.blurred ∧
      List.Forall₂ (Frame.Mirrors ρ) (s.keep o).2 (s'.keep o').2 := by
  have hlower : s'.below.flatMap Frame.parked = s.below.flatMap Frame.parked := by
    rw [List.flatMap_def, List.flatMap_def,
      map_eq_of_forall₂ (fun _ _ hf => Frame.Mirrors.parked hf) h.below]
  have hcut : o'.isDepthExceeded = o.isDepthExceeded := by
    rw [← o'.isDepthExceeded_blurred, ho, o.isDepthExceeded_blurred]
  have hsucceeded : o'.succeeded = o.succeeded := by
    rw [← o'.succeeded_blurred, ho, o.succeeded_blurred]
  have hframes := forall₂_modify (fun _ _ hf => hf.park (s.top.goal :: s.top.parked)) h.below
    s.top.low
  unfold Search.keep
  simp only [hcut, hsucceeded, h.top.goal, h.top.parked, h.top.low, h.length, h.goals, hlower]
  cases Outcome.alike_of_blurred ho with
  | ok p =>
    by_cases hlow : s.top.low < s.below.length
    · rw [if_pos hlow, if_pos hlow]
      exact ⟨Ledger.restOn_alike h.ledger rfl _ _ _, hframes⟩
    · rw [if_neg hlow, if_neg hlow]
      exact ⟨Ledger.confirm_alike h.ledger rfl _ _ _, h.below⟩
  | @error f f' hf =>
    have hspread := Ledger.spreadFailure_alike h.ledger hf s.top.goal s.top.parked
      (s.below.flatMap Frame.parked)
    by_cases hdepth : Outcome.isDepthExceeded (.error f) = true
    · rw [if_pos hdepth, if_pos hdepth]
      exact ⟨hspread, h.below⟩
    · rw [if_neg hdepth, if_neg hdepth]
      by_cases hlow : s.top.low < s.below.length
      · have hstate : GoalState.blurred (.provisional s.top.low (.error f')
              (s.below.map Frame.goal)) =
            GoalState.blurred (.provisional s.top.low (.error f) (s.below.map Frame.goal)) := by
          rw [GoalState.blurred, GoalState.blurred, ho]
        rw [if_pos hlow, if_pos hlow]
        exact ⟨Ledger.restOn_alike hspread hstate _ _ _, hframes⟩
      · have hstate : GoalState.blurred (.failed f') = GoalState.blurred (.failed f) :=
          congrArg GoalState.failed hf
        rw [if_neg hlow, if_neg hlow]
        exact ⟨Ledger.confirm_alike hspread hstate _ _ _, h.below⟩

theorem verdict (h : s.Mirrors ρ s') (policy : Policy) :
    (s'.verdict policy).blurred = (s.verdict policy).blurred := by
  rw [Search.verdict, Search.verdict, h.goals]
  exact h.top.outcome policy _

theorem recorded (h : s.Mirrors ρ s') (policy : Policy) :
    s'.recorded policy = s.recorded policy := by
  have hv := Outcome.alike_of_blurred (h.verdict policy)
  unfold Search.recorded
  generalize s.verdict policy = o, s'.verdict policy = o' at hv ⊢
  cases hv with
  | ok p => exact congrArg (ProofTable.record · p) (Knowledge.table_alike h.known)
  | error _ => exact Knowledge.table_alike h.known

theorem closeTop (h : s.Mirrors ρ s') (policy : Policy) :
    Step.Mirrors ρ (s.closeTop policy) (s'.closeTop policy) := by
  obtain ⟨hledger, hframes⟩ := h.keep (h.verdict policy)
  have hlength := h.length
  cases hcl : s.closeTop policy with
  | finished o known =>
    obtain ⟨hbelow, rfl, hl, ht⟩ := closeTop_finished hcl
    cases hcl' : s'.closeTop policy with
    | finished o' known' =>
      obtain ⟨_, rfl, hl', ht'⟩ := closeTop_finished hcl'
      refine .finished (h.verdict policy) ?_
      simp only [Knowledge.blurred, hl, hl', ht, ht', hledger, h.recorded policy]
    | running next' =>
      obtain ⟨parent', hk', _⟩ := closeTop_running hcl'
      have hlength' := s'.keep_length (s'.verdict policy)
      rw [hk', hlength, hbelow, List.length_append] at hlength'
      cases hlength'
  | running next =>
    obtain ⟨parent, hk, hl, ht, htop⟩ := closeTop_running hcl
    cases hcl' : s'.closeTop policy with
    | finished o' known' =>
      obtain ⟨hbelow', _⟩ := closeTop_finished hcl'
      have hlength' := s.keep_length (s.verdict policy)
      rw [hk, ← hlength, hbelow', List.length_append] at hlength'
      cases hlength'
    | running next' =>
      obtain ⟨parent', hk', hl', ht', htop'⟩ := closeTop_running hcl'
      rw [hk, hk', forall₂_concat] at hframes
      have hlink := Outcome.asLink_alike (h.verdict policy)
      refine .running ⟨?_, hframes.1, ?_⟩
      · simp only [Knowledge.blurred, hl, hl', ht, ht', hledger, h.recorded policy]
      · rw [htop, htop', h.top.goal, h.top.low]
        exact hframes.2.receive s.top.goal hlink s.top.low

theorem step (h : s.Mirrors ρ s') (hi : catalog.Indexed)
    (hc : ∀ r ∈ catalog.rules, r.Renamable ρ) (policy : Policy) :
    Step.Mirrors ρ (s.step catalog policy) (s'.step (catalog.renamed ρ) policy) := by
  have htrial := h.top.trial
  unfold Search.step
  generalize s.top.trial = trial, s'.top.trial = trial' at htrial ⊢
  cases htrial with
  | @some t t' ht =>
    dsimp only
    rw [ht.next?]
    cases hn : t.next? with
    | some q => exact .running (h.meet hi hc ht (List.mem_of_getElem? hn))
    | none => exact .running { h with top := h.top.succeed ht }
  | none =>
    have huntried := h.top.untried
    have hdepth : s'.depth = s.depth := h.length
    dsimp only
    rw [h.top.remaining, hdepth]
    cases hr : s.top.remaining with
    | nil => exact h.closeTop policy
    | cons r rest =>
      rw [hr] at huntried
      exact .running { h with top := h.top.tryRule s.depth huntried }

/-- Searches that differ in the names of variables only end together, with the same outcome. -/
theorem run (h : s.Mirrors ρ s') (hi : catalog.Indexed)
    (hc : ∀ r ∈ catalog.rules, r.Renamable ρ) (policy : Policy) (budget : Nat) :
    (s'.run (catalog.renamed ρ) policy budget).map (Prod.map Outcome.blurred Knowledge.blurred) =
      (s.run catalog policy budget).map (Prod.map Outcome.blurred Knowledge.blurred) := by
  induction budget generalizing s s' with
  | zero => rfl
  | succ budget ih =>
    have hstep := h.step hi hc policy
    unfold Search.run
    generalize s.step catalog policy = a, s'.step (catalog.renamed ρ) policy = a' at hstep ⊢
    cases hstep with
    | running hnext => exact ih hnext
    | finished ho hk => exact congrArg some (Prod.ext ho hk)

end Search.Mirrors

end Clausal
