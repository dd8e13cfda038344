import Clausal.Proofs.Ending
import Clausal.Proofs.Stability

namespace Clausal

/-- A session at some moment: between calls, or at a state of a search. -/
inductive Moment where
  | idle (known : Knowledge)
  | searching (s : Search)

namespace Moment

def known : Moment → Knowledge
  | idle known => known
  | searching s => s.toKnowledge

/-- What is known of each goal at the moment. -/
def states (m : Moment) : States :=
  m.known.ledger.get?

/-- The stack of the search under way, none between calls. -/
def frames : Moment → List Frame
  | idle _ => []
  | searching s => s.stack

/-- Hits and misses have no part in what is known of goals. -/
theorem states_counted {known : Knowledge} {ledger : Ledger}
    (he : ledger.entries = known.ledger.entries) :
    (idle { known with ledger := ledger }).states = (idle known).states :=
  Ledger.get?_congr he

/-- A property that searches and the calls between them keep, at a moment of a session. -/
def Holds (K : List Search → Knowledge → Prop) (S : List Search → Search → Prop)
    (past : List Search) : Moment → Prop
  | idle known => K past known
  | searching s => S past s

end Moment

/-- How a session goes on from some moment as calls are made, none of them a reset, with the search
states that it leaves behind. A call counts a hit or a miss if it needs no search. -/
inductive Course (catalog : Catalog) (policy : Policy) (a : Moment) : List Search → Moment → Prop
  | rest : Course catalog policy a [] a
  | counted {past known ledger} : Course catalog policy a past (.idle known) →
      ledger.entries = known.ledger.entries →
      Course catalog policy a past (.idle { known with ledger := ledger })
  | begin {past known goal} : Course catalog policy a past (.idle known) →
      known.Searches policy goal → Course catalog policy a past (.searching (known.first catalog goal))
  | step {past s next} : Course catalog policy a past (.searching s) →
      s.step catalog policy = .running next → Course catalog policy a (past ++ [s]) (.searching next)
  | finish {past s outcome known} : Course catalog policy a past (.searching s) →
      s.step catalog policy = .finished outcome known →
      Course catalog policy a (past ++ [s]) (.idle known)

namespace Course

variable {catalog : Catalog} {policy : Policy} {a b c : Moment} {past later : List Search}
  {s e : Search} {known after : Knowledge} {outcome : Outcome} {goal : Term} {budget : Nat}

theorem trans (h : Course catalog policy a past b) (h' : Course catalog policy b later c) :
    Course catalog policy a (past ++ later) c := by
  induction h' with
  | rest => simpa using h
  | counted _ he ih => exact .counted ih he
  | begin _ hg ih => exact .begin ih hg
  | step _ hs ih =>
    rw [← List.append_assoc]
    exact .step ih hs
  | finish _ hs ih =>
    rw [← List.append_assoc]
    exact .finish ih hs

theorem run (h : Course catalog policy a past (.searching s))
    (hrun : s.run catalog policy budget = some (outcome, known)) :
    Course catalog policy a (past ++ s.trace catalog policy budget) (.idle known) := by
  obtain ⟨before, last, htrace, hlast, hstep⟩ := Search.run_finished past
    (S := fun past s => Course catalog policy a past (.searching s))
    (fun hs hn => .step hs hn) h hrun
  rw [htrace]
  exact .finish hlast hstep

/-- A state of a search splits the search into what leads there and what follows. -/
theorem through (h : Course catalog policy a past (.searching s))
    (he : e ∈ s.trace catalog policy budget) : ∃ before rest,
      s.trace catalog policy budget = before ++ e.trace catalog policy rest ∧
      Course catalog policy a (past ++ before) (.searching e) ∧
      ∀ answer, s.run catalog policy budget = some answer →
        e.run catalog policy rest = some answer := by
  induction budget generalizing past s with
  | zero => cases he
  | succ budget ih =>
    unfold Search.trace at he
    rcases List.mem_cons.mp he with rfl | he
    · exact ⟨[], budget + 1, rfl, by simpa using h, fun _ hr => hr⟩
    · cases hstep : s.step catalog policy with
      | finished o k => simp [hstep] at he
      | running next =>
        rw [hstep] at he
        obtain ⟨before, rest, htrace, hcourse, hrun⟩ := ih (.step h hstep) he
        refine ⟨s :: before, rest, ?_, ?_, fun answer hr => ?_⟩
        · simp [Search.trace, hstep, htrace]
        · simpa using hcourse
        · apply hrun
          simpa [Search.run, hstep] using hr

/-- A call is a part of the course. -/
theorem call (h : Course catalog policy a past (.idle known))
    (hp : known.prove catalog policy budget goal = some (outcome, after)) :
    Course catalog policy a (past ++ known.trace catalog policy budget goal) (.idle after) := by
  rcases known.searches_or catalog policy goal with hsearches | hat
  · rw [hsearches.prove] at hp
    rw [hsearches.trace]
    exact (Course.begin h hsearches).run hp
  · obtain ⟨htrace, _, ledger, hprove, hentries⟩ := hat budget
    cases hprove.symm.trans hp
    rw [htrace, List.append_nil]
    exact .counted h hentries

theorem of_mem_trace (h : Course catalog policy a past (.idle known))
    (he : e ∈ known.trace catalog policy budget goal) :
    ∃ reached, Course catalog policy a reached (.searching e) := by
  have hsearches := Knowledge.searches_of_mem_trace he
  rw [hsearches.trace] at he
  obtain ⟨_, _, _, hcourse, _⟩ := (Course.begin h hsearches).through he
  exact ⟨_, hcourse⟩

/-- What searches carry on holds at every moment to come. -/
theorem carried {I : List Search → List Frame → States → ProofTable → Prop}
    (inv : Carried catalog policy I) (before : List Search)
    (h : Course catalog policy a past b) (ha : Aligned a.frames a.states)
    (hi : I before a.frames a.states a.known.table) :
    Aligned b.frames b.states ∧ I (before ++ past) b.frames b.states b.known.table := by
  induction h with
  | rest =>
    rw [List.append_nil]
    exact ⟨ha, hi⟩
  | @counted past known ledger _ he ih =>
    rw [Moment.states_counted he]
    exact ih
  | @begin past known goal _ hg ih =>
    obtain ⟨hal, hil⟩ := ih
    have hnone : known.ledger.get? goal = none := hal.eq_none hg.unresolved hg.unfailed
    have haligned : Aligned (known.first catalog goal).stack (known.first catalog goal).ledger.get? :=
      hg.aligned hal
    exact ⟨haligned, inv.push hal hil hnone Knowledge.first_get? haligned⟩
  | step _ hs ih =>
    obtain ⟨hal, hil⟩ := ih
    rw [← List.append_assoc]
    exact ⟨Search.aligned_running hal hs, inv.running _ hal hil hs⟩
  | finish _ hs ih =>
    obtain ⟨hal, hil⟩ := ih
    rw [← List.append_assoc]
    exact inv.finished _ hal hil hs

/-- What a session keeps from its start on holds at every moment of it. -/
theorem kept {K : List Search → Knowledge → Prop} {S : List Search → Search → Prop}
    (kept : Kept catalog policy K S) (before : List Search) (h : Course catalog policy a past b)
    (ha : a.Holds K S before) : b.Holds K S (before ++ past) := by
  induction h with
  | rest =>
    rw [List.append_nil]
    exact ha
  | counted _ he ih => exact kept.counted ih he
  | begin _ hg ih => exact kept.push (kept.counted ih rfl) hg.ground hg.unresolved hg.unfailed
  | step _ hs ih =>
    rw [← List.append_assoc]
    exact kept.running ih hs
  | finish _ hs ih =>
    rw [← List.append_assoc]
    exact kept.finished ih hs

end Course

variable {catalog : Catalog} {policy : Policy} {V : Type} {past : List Search} {s t : Prover V}

/-- The calls of a session without a reset are a course. -/
theorem Prover.Later.course {goals : List Term} (hs : Session catalog policy past s)
    (h : s.Later goals t) :
    ∃ later, Course catalog policy (.idle s.known) later (.idle t.known) := by
  induction h with
  | same => exact ⟨[], .rest⟩
  | call hl hcall ih =>
    obtain ⟨later, hcourse⟩ := ih
    obtain ⟨past', hmid⟩ := hl.session hs
    obtain ⟨hcatalog, hpolicy, _⟩ := hmid.learnt
    obtain ⟨budget, goal, answer, m, hm, hnext⟩ := hcall.cases
    obtain ⟨outcome, known, hp, _, rfl⟩ := compile_outcome hm
    rw [hcatalog, hpolicy] at hp
    have hafter := hcourse.call hp
    rcases hnext with rfl | ⟨_, _, _, _, _, rfl⟩
    · exact ⟨_, hafter⟩
    · exact ⟨_, hafter⟩

/-- Every state of every search of a session is a moment of it. -/
theorem Session.reached (h : Session catalog policy past s) {e : Search} (he : e ∈ past) :
    ∃ past', ∃ s' : Prover V, Session catalog policy past' s' ∧
      ∃ reached, Course catalog policy (.idle s'.known) reached (.searching e) := by
  have searched : ∀ {past : List Search} {s : Prover V} {budget goal},
      Session catalog policy past s → e ∈ s.known.trace catalog policy budget goal →
      ∃ past', ∃ s' : Prover V, Session catalog policy past' s' ∧
        ∃ reached, Course catalog policy (.idle s'.known) reached (.searching e) :=
    fun hs he => ⟨_, _, hs, Course.rest.of_mem_trace he⟩
  induction h with
  | start => cases he
  | compile hs _ ih => exact (List.mem_append.mp he).elim ih (searched hs)
  | resolve hs _ ih => exact (List.mem_append.mp he).elim ih (searched hs)
  | resolveAs hs _ ih => exact (List.mem_append.mp he).elim ih (searched hs)
  | reset _ ih => exact ih he

theorem Session.aligned (h : Session catalog policy past s) {e : Search} (he : e ∈ past) :
    Aligned e.stack e.ledger.get? := by
  obtain ⟨past', s', hs', reached, hcourse⟩ := h.reached he
  have kept := (aligned_invariant catalog policy).kept
  obtain ⟨_, _, hlearnt⟩ := hs'.learnt
  obtain ⟨haligned, _⟩ := hcourse.kept kept past' (kept.learnt hlearnt)
  exact haligned

end Clausal
