import Interlock.Proofs.Pool.Roles
import Mathlib.Data.List.Induction

/-!
# Runs of a pool

Every pool that a run reaches is sound (`Reachable.sound`).  A run is given by its actions, first
to last (`run`), so that what happened on the way can be read off it.  What a move keeps holds
along every run (`Reachable.keep`, `seen_keep`).
-/

namespace Interlock.Pool

variable {config : Config} {spawner : Nat → Except StartFailure (Option Payload.Inert)} {p q : Pool}

/-! ## The start -/

/-- A valid configuration has a worker at least, and no more than the limit. -/
theorem workers_of_validate (h : config.validate = .ok ()) :
    0 < config.workers ∧ config.workers ≤ Limits.workers := by
  unfold Config.validate at h
  split at h
  · cases h
  split at h
  · cases h
  omega

/-- A pool about to be made has failed, or has all its workers unborn. -/
theorem create_cases (config : Config)
    (spawner : Nat → Except StartFailure (Option Payload.Inert)) :
    (∃ e, create config spawner =
      { config, spawner, workers := [], creation := .failed (.invalidConfig e) }) ∨
    config.validate = .ok () ∧
      create config spawner =
        { config
          spawner
          workers := List.replicate config.workers {}
          creation := .preparing 0 } := by
  unfold create
  split
  · next e _ => exact .inl ⟨e, rfl⟩
  · next h => exact .inr ⟨h, rfl⟩

/-- A pool of which nothing was asked so far. -/
structure Untried (p : Pool) : Prop where
  workers : ∀ (i : Nat) (w : Worker), p.workers[i]? = some w → w = {}
  idle : p.idle = []
  control : p.control = {}
  reaped : p.reaped = false
  jobs : p.jobs = #[]
  calls : p.calls = #[]
  maker : p.creation.reaping? = none

theorem Untried.sound (h : p.Untried)
    (hunborn : ∀ i, i < p.size → p.creation.unborn i = some .notRunning)
    (hcurrent : ∀ i, p.creation.current? = some i → i < p.size)
    (hunbroken : ∀ payload, p.creation ≠ .broken payload) : p.Sound := by
  have inside {i : Nat} {w : Worker} (hw : p.workers[i]? = some w) : i < p.size :=
    (List.getElem?_eq_some_iff.1 hw).1
  have nobody (k job : Nat) (s : Submission) : ¬ p.Submits k job s := by simp [Submits, h.calls]
  have nowhere (k job : Nat) (o : Option Nat) : ¬ p.Lodged k job o := by
    rintro ⟨s, hs, -⟩
    exact nobody k job s hs
  have idle : p.offered = [] := by simp [offered, held, h.idle, h.calls]
  have unused (i job : Nat) : ¬ p.Carries i job := by
    rintro ⟨w, hw, hjob⟩
    rw [h.workers i w hw] at hjob
    cases hjob
  refine ⟨?_, ⟨?_, ?_, hcurrent, hunbroken⟩, ⟨?_, ?_⟩, ?_, ⟨?_, ?_, ?_, ?_, ?_, ?_, ?_, ?_⟩, ?_⟩
  · intro i w hw
    rw [h.workers i w hw]
    exact ⟨⟨.inl rfl, rfl⟩, by simp, by simp⟩
  · intro i w hw _
    rw [h.workers i w hw]
    exact hunborn i (inside hw)
  · intro i w hw born
    rw [h.workers i w hw] at born
    exact absurd rfl born
  · intro k c hc
    simp [h.calls] at hc
  · rw [h.control]
    rintro ⟨⟩
  · rw [idle]
    refine ⟨.nil, by simp, fun _ i w hw sleeps => ?_⟩
    rw [h.workers i w hw] at sleeps
    cases sleeps
  · exact fun k job o hl => absurd hl (nowhere k job o)
  · intro job hj
    simp [h.jobs] at hj
  · exact fun k m job o o' hl => absurd hl (nowhere k job o)
  · exact fun k job payload => nobody k job _
  · exact fun k job hl => absurd hl (nowhere k job _)
  · exact fun k job i hl => absurd hl (nowhere k job _)
  · exact fun i job hi => absurd hi (unused i job)
  · exact fun i w job hw hjob => absurd ⟨w, hw, hjob⟩ (unused i job)
  · have nobody : p.reapers = [] := by simp [reapers, callers, h.maker, h.calls]
    rw [nobody]
    refine ⟨?_, by simp, ?_, ?_⟩
    · rw [h.control]
      rfl
    · rw [h.control]
      rintro ⟨⟩
    · rw [h.reaped]
      rintro ⟨⟩

/-- A pool is sound in the beginning. -/
theorem sound_create (config : Config)
    (spawner : Nat → Except StartFailure (Option Payload.Inert)) :
    (create config spawner).Sound := by
  rcases create_cases config spawner with ⟨e, made⟩ | ⟨valid, made⟩
  · rw [made]
    have untried : Untried
        { config, spawner, workers := [], creation := .failed (.invalidConfig e) } :=
      ⟨by simp, rfl, rfl, rfl, rfl, rfl, rfl⟩
    exact untried.sound (by simp [size]) (by simp [Creation.current?]) (by simp)
  · rw [made]
    have untried : Untried
        { config, spawner, workers := List.replicate config.workers {},
          creation := .preparing 0 } := by
      refine ⟨?_, rfl, rfl, rfl, rfl, rfl, rfl⟩
      intro i w hw
      exact List.eq_of_mem_replicate (List.mem_of_getElem? hw)
    refine untried.sound (by simp [Creation.unborn]) ?_ (by simp)
    intro i hi
    obtain rfl : 0 = i := Option.some.inj hi
    simpa [size] using (workers_of_validate valid).1

/-! ## What a run keeps -/

/-- Every move keeps a pool sound. -/
theorem Sound.move (h : p.Sound) {log : Array (Thread × Log.Line)} {a : Action}
    (m : Move p log a q) : q.Sound where
  slots := h.slots.move h.making m
  making := h.making.move h.slots m
  ready := h.ready.move m
  offers := h.offers_move m
  ledger := h.ledger_move m
  roles := h.roles_move m

theorem Sound.step (h : p.Sound) (a : Action) : (p.step a).Sound := h.move (h.move_step a).2

/-- Every state that a run reaches is sound. -/
theorem Reachable.sound (h : Reachable config spawner p) : p.Sound := by
  induction h with
  | start => exact sound_create config spawner
  | step a h ih => exact ih.step a

/-- What holds of the pool that is about to be made and survives every move of a sound pool holds
all along. -/
theorem Reachable.keep {motive : Pool → Prop} (h : Reachable config spawner p)
    (start : motive (create config spawner))
    (move : ∀ {p q : Pool} {log : Array (Thread × Log.Line)} {a : Action}, p.Sound → q.Sound →
      Move p log a q → motive p → motive q) : motive p := by
  induction h with
  | start => exact start
  | step a h ih => exact move h.sound (h.sound.step a) (h.sound.move_step a).2 ih

/-- A reachable pool has logged nothing but routine. -/
theorem Reachable.routine (h : Reachable config spawner p) : ∀ entry ∈ p.log, Routine entry.2 := by
  induction h with
  | start =>
    intro entry hentry
    rcases create_cases config spawner with ⟨e, made⟩ | ⟨-, made⟩ <;> simp [made] at hentry
  | step a h ih =>
    intro entry hentry
    rcases (h.sound.move_step a).1 entry hentry with old | new
    · exact ih entry old
    · exact new

/-! ## Runs -/

/-- The pool after some actions, first to last. -/
def run (p : Pool) (actions : List Action) : Pool := actions.foldl step p

theorem run_concat (p : Pool) (actions : List Action) (a : Action) :
    p.run (actions ++ [a]) = (p.run actions).step a := by
  simp [run]

theorem run_append (p : Pool) (actions more : List Action) :
    p.run (actions ++ more) = (p.run actions).run more := by
  simp [run]

/-- What a run leads to is reachable. -/
theorem Reachable.run (h : Reachable config spawner p) (actions : List Action) :
    Reachable config spawner (p.run actions) := by
  induction actions generalizing p with
  | nil => exact h
  | cons a actions ih => exact ih (h.step a)

/-- The pools that are reached are those at the ends of runs. -/
theorem reachable_iff_run :
    Reachable config spawner p ↔ ∃ actions, (create config spawner).run actions = p := by
  constructor
  · intro h
    induction h with
    | start => exact ⟨[], rfl⟩
    | step a h ih =>
      obtain ⟨actions, rfl⟩ := ih
      exact ⟨actions ++ [a], run_concat _ _ _⟩
  · rintro ⟨actions, rfl⟩
    exact Reachable.start.run actions

/-- What is seen of a run, first to last, by somebody who sees `see p a q` of a step from `p` to
`q`. -/
def seen {α : Type} (see : Pool → Action → Pool → List α) (p : Pool) : List Action → List α
  | [] => []
  | a :: actions => see p a (p.step a) ++ seen see (p.step a) actions

/-- What is seen of a run is seen part by part. -/
theorem seen_append {α : Type} (see : Pool → Action → Pool → List α) (p : Pool)
    (actions more : List Action) :
    p.seen see (actions ++ more) = p.seen see actions ++ (p.run actions).seen see more := by
  induction actions generalizing p with
  | nil => rfl
  | cons a actions ih =>
    simp only [List.cons_append, seen, ih, List.append_assoc]
    rfl

theorem seen_concat {α : Type} (see : Pool → Action → Pool → List α) (p : Pool)
    (actions : List Action) (a : Action) :
    p.seen see (actions ++ [a]) =
      p.seen see actions ++ see (p.run actions) a ((p.run actions).step a) := by
  rw [seen_append]
  simp [seen]

/-- What holds of the pool that is about to be made with nothing seen, and survives every move of
a sound pool with what is seen of it, holds all along. -/
theorem seen_keep {α : Type} {see : Pool → Action → Pool → List α}
    {motive : Pool → List α → Prop} (start : motive (create config spawner) [])
    (move : ∀ {p q : Pool} {log : Array (Thread × Log.Line)} {a : Action} {l : List α}, p.Sound →
      Move p log a q → motive p l → motive q (l ++ see p a q)) (actions : List Action) :
    motive ((create config spawner).run actions) ((create config spawner).seen see actions) := by
  induction actions using List.reverseRecOn with
  | nil => exact start
  | append_singleton actions a ih =>
    have sound := (Reachable.start.run actions : Reachable config spawner _).sound
    rw [run_concat, seen_concat]
    exact move sound (sound.move_step a).2 ih

/-! ## A small pool

Two workers, whose threads start and end as they should. -/

/-- Two workers and otherwise the defaults. -/
def pair : Config where
  workers := 2
  parkTimeout := .ofMillis 10
  stackSize := 0
  debugLogging := false

/-- Every thread starts, and none unwinds. -/
def steady (_ : Nat) : Except StartFailure (Option Payload.Inert) := .ok none

/-- How a pool of two workers is made: both threads are started, and the workers attach
themselves before the maker looks for them. -/
def making : List Action :=
  List.replicate 6 .creation ++ [.worker 0, .worker 1] ++ List.replicate 3 .creation

/-- A job is handed in and its submitter goes so many steps. -/
def submitting (call steps : Nat) : List Action :=
  .begin .main (.submit (.ok ()) false) :: List.replicate steps (.call call)

/-- Somebody begins to reap and goes so many steps. -/
def reaping (call steps : Nat) : List Action :=
  .begin .main .reap :: List.replicate steps (.call call)

end Interlock.Pool
