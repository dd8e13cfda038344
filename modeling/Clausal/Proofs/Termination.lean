import Clausal.Proofs.Calls
import Clausal.Proofs.Candidates
import Mathlib.Algebra.Order.BigOperators.Group.List
import Mathlib.Algebra.Order.Ring.Nat

namespace Clausal

/-- The steps that trying a rule takes at most, apart from the searches in between. -/
def Rule.work (r : Rule) : Nat :=
  r.body.length + 2

def Trial.work (t : Trial) : Nat :=
  1 + (t.rule.body.length - t.edges.length)

/-- The steps that a frame still takes at most, apart from those of the frames above it. -/
def Frame.work (f : Frame) : Nat :=
  1 + (f.remaining.map Rule.work).sum + f.trial.elim 0 Trial.work

/-- More than the work of any frame that is just started. -/
def Catalog.work (catalog : Catalog) : Nat :=
  (catalog.rules.map Rule.work).sum + 2

/-- The weight of frames that wait for an answer, the lowest of which stands at height `d`. A
waiting frame is one step ahead. -/
def burden (K : Nat) : Nat → List Nat → Nat
  | _, [] => 0
  | d, w :: ws => (w - 1) * K ^ d + burden K (d - 1) ws

/-- The weight of a stack of at most `D + 1` frames, given the work of each. -/
def load (K D : Nat) (ws : List Nat) : Nat :=
  burden K D ws.dropLast + ws.getLast?.getD 0 * K ^ (D - ws.dropLast.length)

theorem burden_concat (K d w : Nat) (ws : List Nat) :
    burden K d (ws ++ [w]) = burden K d ws + (w - 1) * K ^ (d - ws.length) := by
  induction ws generalizing d with
  | nil => simp [burden]
  | cons x ws ih =>
    have hd : d - 1 - ws.length = d - (ws.length + 1) := by omega
    simp only [List.cons_append, burden, ih, List.length_cons, hd]
    omega

theorem load_concat (K D w : Nat) (ws : List Nat) :
    load K D (ws ++ [w]) = burden K D ws + w * K ^ (D - ws.length) := by
  simp [load]

theorem load_lt_of_lt {K D w w' : Nat} {ws : List Nat} (hK : 0 < K) (h : w' < w) :
    load K D (ws ++ [w']) < load K D (ws ++ [w]) := by
  rw [load_concat, load_concat]
  have hpow : 0 < K ^ (D - ws.length) := Nat.pow_pos hK
  have := Nat.mul_lt_mul_of_pos_right h hpow
  omega

/-- A frame started above another one weighs less than a step of the other. -/
theorem load_push_lt {K D w w' : Nat} {ws : List Nat} (hw : 0 < w) (hw' : w' < K)
    (hD : ws.length < D) : load K D (ws ++ [w] ++ [w']) < load K D (ws ++ [w]) := by
  rw [load_concat, load_concat, burden_concat]
  obtain ⟨d, hd⟩ : ∃ d, D - ws.length = d + 1 := ⟨D - ws.length - 1, by omega⟩
  have hd' : D - (ws ++ [w]).length = d := by
    simp only [List.length_append, List.length_singleton]
    omega
  have hpow : 0 < K ^ d := Nat.pow_pos (by omega)
  have hlt : w' * K ^ d < K ^ (d + 1) := by
    rw [Nat.pow_succ, Nat.mul_comm (K ^ d)]
    exact Nat.mul_lt_mul_of_pos_right hw' hpow
  have hsplit : w * K ^ (d + 1) = (w - 1) * K ^ (d + 1) + K ^ (d + 1) := by
    obtain ⟨v, rfl⟩ : ∃ v, w = v + 1 := ⟨w - 1, by omega⟩
    rw [Nat.add_mul, Nat.one_mul, Nat.add_sub_cancel]
  rw [hd', hd, hsplit]
  omega

/-- A frame that ends leaves the other one with a step less to take. -/
theorem load_pop_lt {K D w v v' : Nat} {ws : List Nat} (hK : 0 < K) (hw : 0 < w) (hv : v' < v) :
    load K D (ws ++ [v']) < load K D (ws ++ [v] ++ [w]) := by
  rw [load_concat, load_concat, burden_concat]
  have hpow : 0 < K ^ (D - (ws ++ [v]).length) := Nat.pow_pos hK
  have htop := Nat.mul_pos hw hpow
  have hle : v' * K ^ (D - ws.length) ≤ (v - 1) * K ^ (D - ws.length) :=
    Nat.mul_le_mul_right _ (by omega)
  omega

section

variable {catalog : Catalog} {policy : Policy} {states : States} {depth : Nat} {f f₀ top top' : Frame}

theorem Frame.work_pos (f : Frame) : 0 < f.work := by
  unfold work
  omega

theorem Frame.Progress.work_lt (h : top.Progress states depth top') : top'.work < top.work := by
  cases h with
  | @tried rule rest ht hr =>
    unfold tryRule
    split
    · simp only [Frame.work, ht, hr, Rule.work, Trial.work, List.map_cons, List.sum_cons,
        Option.elim_some, Option.elim_none, List.length_nil]
      omega
    · simp only [Frame.work, ht, hr, Rule.work, List.map_cons, List.sum_cons, Option.elim_none]
      omega
  | @succeeded t ht hn =>
    simp only [Frame.work, succeed, ht, Trial.work, Option.elim_some, Option.elim_none]
    omega
  | @unbound t r v ht hr ha =>
    simp only [Frame.work, giveUp, ht, Trial.work, Option.elim_some, Option.elim_none]
    omega
  | @received t r goal answer low ht hr ha hans =>
    have hlt : t.edges.length < t.rule.body.length := (List.getElem?_eq_some_iff.mp hr).1
    cases answer with
    | ok link =>
      simp only [Frame.work, receive, ht, Trial.work, Option.elim_some, List.length_append,
        List.length_singleton]
      omega
    | error b =>
      cases b <;>
        simp only [Frame.work, receive, giveUp, ht, Trial.work, Option.elim_some,
          Option.elim_none] <;> omega

theorem Frame.work_start (hc : catalog.Indexed) (goal : Term) (id : ProofId) :
    (Frame.start catalog depth goal id).work < catalog.work := by
  have hsub : (catalog.candidates goal).Sublist catalog.rules := by
    cases hg : goal.ctor? with
    | none => simp [Catalog.candidates, hg]
    | some ctor =>
      rw [hc.candidates_eq hg]
      exact List.filter_sublist
  have hle : ((catalog.candidates goal).map Rule.work).sum ≤ (catalog.rules.map Rule.work).sum :=
    (hsub.map Rule.work).sum_le_sum (by simp)
  simp only [Frame.work, start, Option.elim_none, Catalog.work]
  omega

end

namespace Search

variable {catalog : Catalog} {policy : Policy} {s next : Search}

theorem work_modify {frames : List Frame} {change : Frame → Frame} (j : Nat)
    (h : ∀ f, (change f).work = f.work) :
    (frames.modify j change).map Frame.work = frames.map Frame.work := by
  refine List.ext_getElem? fun i => ?_
  rw [List.getElem?_map, List.getElem?_map, List.getElem?_modify]
  cases frames[i]? with
  | none => rfl
  | some f => by_cases hj : j = i <;> simp [hj, h]

theorem work_keep (s : Search) (outcome : Outcome) :
    (s.keep outcome).2.map Frame.work = s.below.map Frame.work := by
  unfold keep
  dsimp only
  split
  · rfl
  · split
    · exact work_modify _ fun f => rfl
    · rfl

/-- Every step that goes on makes the stack weigh less. -/
theorem load_running {D : Nat} (hc : catalog.Indexed) (ha : Aligned s.stack s.ledger.get?)
    (hs : s.step catalog policy = .running next) (hD : next.below.length ≤ D) :
    load catalog.work D (next.stack.map Frame.work) <
      load catalog.work D (s.stack.map Frame.work) := by
  have hK : 0 < catalog.work := by
    unfold Catalog.work
    omega
  have hstack : s.stack.map Frame.work = s.below.map Frame.work ++ [s.top.work] := by
    simp [stack]
  rcases running_cases hs with ⟨_, _, top, hp, hst⟩ | ⟨t, r, goal, _, _, _, _, _, rfl⟩ | ⟨_, _, hcl⟩
  · have hnext : next.stack.map Frame.work = s.below.map Frame.work ++ [top.work] := by
      rcases hst with hst | ⟨j, hst⟩
      · simp [hst]
      · have hrefer : ∀ f : Frame, f.refer.work = f.work := fun f => rfl
        rw [hst, work_modify j hrefer]
        simp
    rw [hstack, hnext]
    exact load_lt_of_lt hK hp.work_lt
  · have hnext : (push catalog { s.toKnowledge with ledger := s.ledger.miss } s.stack goal).stack.map
        Frame.work = s.below.map Frame.work ++ [s.top.work] ++
          [(Frame.start catalog s.stack.length goal s.table.size).work] := by
      simp [stack, push, ProofTable.reserve]
    rw [hstack, hnext]
    apply load_push_lt s.top.work_pos (Frame.work_start hc goal _)
    have hlen : s.stack.length ≤ D := hD
    rw [stack_length] at hlen
    rw [List.length_map]
    exact hlen
  · have hparent : ∃ parent, s.below.map Frame.work = next.below.map Frame.work ++ [parent] ∧
        next.top.work < parent := by
      cases closes ha hcl with
      | @kept parent _ ho hk hl hp =>
        refine ⟨parent.work, ?_, ?_⟩
        · rw [← work_keep s (s.verdict policy), hk]
          simp
        · have hlower : (parent.lower s.top.low).work = parent.work := by
            cases ht : parent.trial <;> simp [Frame.lower, Frame.work, ht, Trial.work]
          exact hlower ▸ hp.work_lt
      | @cut parent failure _ _ _ hb _ _ _ hp => exact ⟨parent.work, by simp [hb], hp.work_lt⟩
    obtain ⟨parent, hbelow, hlt⟩ := hparent
    have hnext : next.stack.map Frame.work = next.below.map Frame.work ++ [next.top.work] := by
      simp [stack]
    rw [hstack, hbelow, hnext]
    exact load_pop_lt hK s.top.work_pos hlt

/-- A search whose stack stays low enough ends. -/
theorem run_isSome {P : Search → Prop} {D : Nat} (hc : catalog.Indexed)
    (aligned : ∀ s, P s → Aligned s.stack s.ledger.get?) (bounded : ∀ s, P s → s.below.length ≤ D)
    (running : ∀ s next, P s → s.step catalog policy = .running next → P next) {budget : Nat}
    {s : Search} (hs : P s) (hb : load catalog.work D (s.stack.map Frame.work) < budget) :
    (s.run catalog policy budget).isSome := by
  induction budget generalizing s with
  | zero => omega
  | succ budget ih =>
    unfold run
    cases hstep : s.step catalog policy with
    | finished outcome known => rfl
    | running next =>
      have hnext := running s next hs hstep
      have hlt := load_running hc (aligned s hs) hstep (bounded next hnext)
      exact ih hnext (by omega)

end Search

end Clausal
