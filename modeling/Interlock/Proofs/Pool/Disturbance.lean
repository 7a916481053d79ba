import Interlock.Proofs.Pool.Alike
import Interlock.Proofs.Pool.Rest
import Interlock.Proofs.Pool.Settling
import Interlock.Proofs.Pool.Wakeup

/-!
# Wake-ups make no difference

In a sequential run jobs are handed in, tasks come to their end and the pool is reaped, one after
the other, and each time everybody goes on until nobody can.  Such a run may be disturbed at any
point: any thread signals any slot, a call that signals takes a step out of turn, or a wait ends
unasked.  The disturbed session goes through the same states as the one that is left alone, but for
workers that were woken in vain and are about to go back to wait (`Shadows.goes`), so that both come
to rest alike (`Trails.settle`).
-/

namespace Interlock

namespace Pool

open Relation (ReflTransGen)

variable {config : Config} {spawner : Nat → Except StartFailure (Option Payload.Inert)}

namespace Session

/-! ## Sequential runs -/

/-- What is done with a pool in a sequential run. -/
inductive Turn where
  | submit (ending : Ending Unit) (gated : Bool)
  /-- The task of a job comes to its end. -/
  | release (job : Nat)
  | reap

/-- What a turn results in. -/
inductive Outcome where
  | placed (placement : Placement)
  | released
  | reaped (done : Bool)
  deriving DecidableEq, Repr

/-- Takes a turn, after which everybody goes on until nobody can. -/
def act (turn : Turn) (s : Session) : Outcome × Session :=
  match turn with
  | .submit ending gated => Prod.map .placed id (s.submit ending gated)
  | .release job => (.released, s.release job)
  | .reap => Prod.map .reaped id s.reap

/-- What is seen of a sequential run: the outcome of each turn, and the pool after it. -/
def play : List Turn → Session → List (Outcome × Pool)
  | [], _ => []
  | turn :: turns, s => ((s.act turn).1, (s.act turn).2.pool) :: play turns (s.act turn).2

/-! ## Disturbed runs -/

/-- A call begins. -/
def enter (thread : Thread) (request : Request) (s : Session) : Session :=
  { pool := s.pool.step (.begin thread request), pending := s.pending ++ [s.pool.calls.size] }

/-- What may happen between the steps of a session. -/
inductive Disturbance where
  /-- A thread signals a slot. -/
  | wake (thread : Thread) (index : Nat)
  /-- A call that signals a slot takes its next step. -/
  | proceed (call : Nat)
  /-- Whoever waits at a slot wakes up unasked. -/
  | rouse (index : Nat)
  /-- The session itself goes on by one step. -/
  | goOn
  deriving Repr

/-- Disturbs a session. -/
def disturb (s : Session) : Disturbance → Session
  | .wake thread index => s.enter thread (.wake index)
  | .proceed call =>
    if (s.pool.calls[call]?).any (·.activity.isWake) then
      { s with pool := s.pool.step (.call call) }
    else s
  | .rouse index => { s with pool := s.pool.step (.rouse index) }
  | .goOn =>
    match s.next? with
    | none => s
    | some action => { s with pool := s.pool.step action }

/-- A turn, with what disturbs it before and after its beginning. -/
structure DisturbedTurn where
  turn : Turn
  before : List Disturbance
  during : List Disturbance

/-- A turn begins. -/
def begin (turn : Turn) (s : Session) : Session :=
  match turn with
  | .submit ending gated =>
    let waits := s.pool.idle.isEmpty && !s.pool.control.isStopping
    s.enter (if waits then .submitter else .main) (.submit ending gated)
  | .release job => { s with pool := s.pool.step (.release job) }
  | .reap => s.enter (if !s.running.isEmpty then .reaper else .main) .reap

/-- The outcome of a turn, by where its call has come to. -/
def Turn.outcome : Turn → Option Activity → Outcome
  | .submit _ _, some (.submitting _ submission) => .placed (.ofSubmission submission)
  | .submit _ _, _ => .placed .blocked
  | .release _, _ => .released
  | .reap, activity => .reaped (activity == some (.reaping .returned))

/-- Takes a turn that is disturbed. -/
def actDisturbed (t : DisturbedTurn) (s : Session) : Outcome × Session :=
  let s := t.before.foldl disturb s
  let rested := (t.during.foldl disturb (s.begin t.turn)).settle
  (t.turn.outcome ((rested.pool.calls[s.pool.calls.size]?).map (·.activity)), rested)

/-- What is seen of a disturbed run, but for the calls that only signal: the outcome of each turn,
and the pool after it. -/
def playDisturbed : List DisturbedTurn → Session → List (Outcome × Pool)
  | [], _ => []
  | t :: turns, s =>
    ((s.actDisturbed t).1, (s.actDisturbed t).2.pool.quiet) ::
      playDisturbed turns (s.actDisturbed t).2

/-- A turn that is left alone begins, and everybody goes on until nobody can. -/
theorem act_eq (turn : Turn) (s : Session) :
    s.act turn = (turn.outcome (s.begin turn).settle.last?, (s.begin turn).settle) := by
  cases turn with
  | submit ending gated =>
    obtain ⟨u, settled⟩ : ∃ u, (s.begin (.submit ending gated)).settle = u := ⟨_, rfl⟩
    rw [settled]
    simp only [begin, enter] at settled
    simp only [act, submit, call, settled]
    cases u.last? with
    | none => rfl
    | some activity => cases activity <;> rfl
  | release job => rfl
  | reap => rfl

/-! ## Calls that are attended to -/

variable {s t : Session} {a : Action}

theorem calls_size_begin {p : Pool} (ready : p.creation = .ready) (thread : Thread)
    (request : Request) : (p.step (.begin thread request)).calls.size = p.calls.size + 1 := by
  rw [← length_wakes, wakes_begin ready, List.length_append, length_wakes]
  rfl

theorem Proper.enter (h : s.Proper config spawner) (thread : Thread) (request : Request) :
    (s.enter thread request).Proper config spawner := by
  have size := calls_size_begin h.ready thread request
  have stepped := h.step (.begin thread request)
  refine ⟨stepped.reached, stepped.ready, ?_, fun k hk => ?_⟩
  · refine List.nodup_append.2 ⟨h.nodup, by simp, fun k hk m hm => ?_⟩
    have inside := h.inside k hk
    have last := List.mem_singleton.1 hm
    omega
  · show k < (s.pool.step (.begin thread request)).calls.size
    rw [size]
    rcases List.mem_append.1 hk with old | new
    · exact (h.inside k old).trans (Nat.lt_succ_self _)
    · rw [List.mem_singleton.1 new]
      exact Nat.lt_succ_self _

/-- Every call that has not returned is pending. -/
def Attended (s : Session) : Prop :=
  ∀ (k : Nat) (c : Call), s.pool.calls[k]? = some c → c.activity.isOver = false → k ∈ s.pending

/-- A call that has not returned had not before. -/
theorem unfinished_before {p : Pool} (sound : p.Sound) {k : Nat} {c : Call}
    (old : k < p.calls.size) (hc : (p.step a).calls[k]? = some c)
    (unfinished : c.activity.isOver = false) :
    ∃ c₀, p.calls[k]? = some c₀ ∧ c₀.activity.isOver = false := by
  obtain ⟨c', hc', -, ended⟩ := sound.call_step a (Array.getElem?_eq_getElem old)
  obtain rfl : c' = c := Option.some.inj (hc'.symm.trans hc)
  refine ⟨_, Array.getElem?_eq_getElem old, Bool.eq_false_iff.2 fun before => ?_⟩
  rw [ended before] at unfinished
  cases unfinished

theorem Attended.step (h : s.Attended) (sound : s.pool.Sound)
    (called : ∀ thread request, a ≠ .begin thread request) :
    Attended { s with pool := s.pool.step a } := by
  intro k c hc unfinished
  have inside := (Array.getElem?_eq_some_iff.1 hc).1
  rw [(sound.move_step a).2.calls_size_eq called] at inside
  obtain ⟨c₀, hc₀, before⟩ := unfinished_before sound inside hc unfinished
  exact h k c₀ hc₀ before

theorem Attended.enter (h : s.Attended) (sound : s.pool.Sound) (ready : s.pool.creation = .ready)
    (thread : Thread) (request : Request) : (s.enter thread request).Attended := by
  intro k c hc unfinished
  have inside := (Array.getElem?_eq_some_iff.1 hc).1
  have size := calls_size_begin ready thread request
  rcases Nat.lt_or_ge k s.pool.calls.size with old | new
  · obtain ⟨c₀, hc₀, before⟩ := unfinished_before sound old hc unfinished
    exact List.mem_append_left _ (h k c₀ hc₀ before)
  · obtain rfl : k = s.pool.calls.size := by
      simp only [Session.enter, size] at inside
      omega
    exact List.mem_append_right _ (List.mem_singleton.2 rfl)

/-- When no pending call can get on, a worker that sleeps has nothing to wake up for. -/
theorem Attended.sleeper (h : s.Attended) (proper : s.Proper config spawner)
    (stuck : s.pending.find? (isUseful s.pool) = none) {i : Nat} {w : Worker}
    (hw : s.pool.workers[i]? = some w) (asleep : w.phase = .waiting) :
    w.slot.cell = none ∧ s.pool.control.isStopping = false := by
  have useless {k : Nat} {c : Call} (hc : s.pool.calls[k]? = some c)
      (unfinished : c.activity.isOver = false) : isUseful s.pool k = false :=
    Bool.eq_false_iff.2 (List.find?_eq_none.1 stuck k (h k c hc unfinished))
  constructor
  · cases hcell : w.slot.cell with
    | none => rfl
    | some job =>
      -- the submission of the job has yet to signal the worker
      obtain ⟨k, n, ⟨c, hc, hs⟩, pending⟩ := proper.reached.signalled i w job hw asleep hcell
      have never := useless hc (by rw [hs]; rfl)
      simp [isUseful, hc, hs, canStepCall, Activity.isOver] at never
  · refine Bool.eq_false_iff.2 fun stops => ?_
    -- a reaper has yet to signal the worker
    obtain ⟨who, r, hr, owes⟩ := proper.reached.owed stops hw asleep
    cases who with
    | maker =>
      rw [standing, proper.ready] at hr
      cases hr
    | caller k =>
      obtain ⟨c, hc, hs⟩ := standing_caller.1 hr
      have unfinished : c.activity.isOver = false := by
        rw [hs]
        cases r <;> first | rfl | exact owes.elim
      have goes : s.pool.canStepReaping r = true := by
        cases r <;> first | rfl | exact owes.elim
      have never := useless hc unfinished
      simp [isUseful, hc, hs, canStepCall, goes] at never

/-! ## A disturbed session and the one that is left alone -/

/-- The second session is the first one disturbed: the pools are alike, and pending are the same
calls, besides those that only signal. -/
structure Shadows (config : Config) (spawner : Nat → Except StartFailure (Option Payload.Inert))
    (s t : Session) : Prop where
  calm : s.Proper config spawner
  disturbed : t.Proper config spawner
  attended : s.Attended
  alike : Alike s.pool t.pool
  pending : s.pending = (t.pending.filter t.pool.isPlain).map t.pool.rank

namespace Shadows

variable (h : Shadows config spawner s t)

include h

/-- The first call that can get on, but for those that only signal, has its counterpart. -/
theorem find?_eq :
    s.pending.find? (isUseful s.pool) =
      (t.pending.find? fun k => t.pool.isPlain k && isUseful t.pool k).map t.pool.rank := by
  rw [h.pending, List.find?_map, List.find?_filter]
  refine congrArg (fun f => (t.pending.find? f).map t.pool.rank) (funext fun k => ?_)
  cases plain : t.pool.isPlain k with
  | false => simp
  | true => simp [h.alike.isUseful plain]

theorem stuck (stuck : t.pending.find? (isUseful t.pool) = none) :
    s.pending.find? (isUseful s.pool) = none := by
  rw [h.find?_eq, Option.map_eq_none_iff, List.find?_eq_none]
  intro k hk both
  exact List.find?_eq_none.1 stuck k hk (Bool.and_eq_true_iff.1 both).2

theorem control_eq : t.pool.control = s.pool.control := by rw [h.alike.rest]

/-- A step leaves the numbers of the calls as they are. -/
theorem pending_step (ha : ∀ thread request, a ≠ .begin thread request) :
    s.pending = (t.pending.filter (t.pool.step a).isPlain).map (t.pool.step a).rank := by
  have same := h.disturbed.reached.sound.wakes_step ha
  have plain : (t.pool.step a).isPlain = t.pool.isPlain := funext (isPlain_congr same)
  have ranks : (t.pool.step a).rank = t.pool.rank := funext (rank_congr same)
  rw [plain, ranks]
  exact h.pending

/-- Both go on by steps after which the pools are alike. -/
theorem both {b : Action} (alike : Alike (s.pool.step b) (t.pool.step a))
    (ha : ∀ thread request, a ≠ .begin thread request)
    (hb : ∀ thread request, b ≠ .begin thread request) :
    Shadows config spawner { s with pool := s.pool.step b } { t with pool := t.pool.step a } :=
  ⟨h.calm.step b, h.disturbed.step a, h.attended.step h.calm.reached.sound hb, alike,
    h.pending_step ha⟩

/-- The disturbed session takes a step that makes no difference. -/
theorem alone (alike : Alike s.pool (t.pool.step a))
    (ha : ∀ thread request, a ≠ .begin thread request) :
    Shadows config spawner s { t with pool := t.pool.step a } :=
  ⟨h.calm, h.disturbed.step a, h.attended, alike, h.pending_step ha⟩

/-- A worker that can go on in the session left alone can in the disturbed one. -/
theorem canStepWorker {j : Nat} {x : Worker} (hx : s.pool.workers[j]? = some x)
    (can : s.pool.canStepWorker x = true) :
    t.pool.workers[j]? = some x ∧ t.pool.canStepWorker x = true := by
  refine ⟨?_, by rwa [h.alike.canStepWorker]⟩
  refine h.alike.workers.kept hx fun asleep => ?_
  simp [Pool.canStepWorker, asleep] at can

/-- The first worker that can go on in the disturbed session is the first in the other one, if it
can go on there as well. -/
theorem nextWorker?_eq {i : Nat} {w : Worker} (found : nextWorker? t.pool = some i)
    (hw : s.pool.workers[i]? = some w) (can : s.pool.canStepWorker w = true) :
    nextWorker? s.pool = some i := by
  obtain ⟨_, -, least⟩ := List.findIdx?_eq_some_iff_getElem.1 found
  obtain ⟨inside, rfl⟩ := List.getElem?_eq_some_iff.1 hw
  refine List.findIdx?_eq_some_iff_getElem.2 ⟨inside, can, fun j before earlier => ?_⟩
  have here := List.getElem?_eq_getElem (l := s.pool.workers) (before.trans inside)
  obtain ⟨there, goes⟩ := h.canStepWorker here earlier
  obtain ⟨_, same⟩ := List.getElem?_eq_some_iff.1 there
  refine least j before ?_
  rw [same]
  exact goes

/-- Whatever the disturbed session does, the other one does as well, or it makes no difference. -/
theorem goes {t' : Session} (goes : Goes t t') :
    ∃ s', ReflTransGen Goes s s' ∧ Shadows config spawner s' t' := by
  have sound := h.disturbed.reached.sound
  obtain ⟨a, next, rfl⟩ := goes
  rcases of_next? h.disturbed.ready next with
    ⟨k, -, found, useful, rfl⟩ | ⟨i, x, none, found, hx, can, rfl⟩
  · obtain ⟨c, hc, -⟩ := unfinished_of_useful useful
    cases wake : c.activity.isWake with
    | true => exact ⟨s, .refl, h.alone (h.alike.step_wake sound hc wake) (by simp)⟩
    | false =>
      have plain : t.pool.isPlain k = true := isPlain_iff.2 ⟨c, hc, wake⟩
      have first : s.pending.find? (isUseful s.pool) = some (t.pool.rank k) := by
        obtain ⟨-, before, after, split, useless⟩ := List.find?_eq_some_iff_append.1 found
        rw [h.find?_eq, Option.map_eq_some_iff]
        refine ⟨k, List.find?_eq_some_iff_append.2 ⟨by simp [plain, useful], before, after, split,
          fun m hm => ?_⟩, rfl⟩
        have never := useless m hm
        simp only [Bool.not_eq_true'] at never
        simp [never]
      have nexts : s.next? = some (.call (t.pool.rank k)) := by
        rw [next?_of_ready h.calm.ready, first]
      exact ⟨_, .single ⟨_, nexts, rfl⟩,
        h.both (h.alike.step_call sound hc wake) (by simp) (by simp)⟩
  · have stuck := h.stuck none
    have together {w : Worker} (hw : s.pool.workers[i]? = some w) (same : x = w) :
        ∃ s', ReflTransGen Goes s s' ∧
          Shadows config spawner s' { t with pool := t.pool.step (.worker i) } := by
      subst same
      rw [h.alike.canStepWorker] at can
      have nexts : s.next? = some (.worker i) := by
        rw [next?_of_ready h.calm.ready, stuck]
        exact congrArg (Option.map _) (h.nextWorker?_eq found hw can)
      exact ⟨_, .single ⟨_, nexts, rfl⟩,
        h.both (h.alike.stepWorker (hx.trans hw.symm)) (by simp) (by simp)⟩
    obtain ⟨w, hw, same | woken⟩ := h.alike.workers.before hx
    · exact together hw same
    · rcases phase_notified w with ⟨asleep, -⟩ | ⟨-, same⟩
      · -- the worker was woken in vain
        obtain ⟨hcell, hstop⟩ := h.attended.sleeper h.calm stuck hw asleep
        rw [woken] at hx
        exact ⟨s, .refl, h.alone (h.alike.step_notified hw asleep hx hcell
          (by rw [h.control_eq, hstop])) (by simp)⟩
      · exact together hw (woken.trans same)

/-- When the disturbed session rests, so does the other one, and the workers are the same. -/
theorem rests (rest : t.next? = none) : s.next? = none ∧ t.pool.workers = s.pool.workers := by
  obtain ⟨none, still⟩ := (next?_eq_none_iff h.disturbed.ready).1 rest
  have stuck (x : Worker) (hx : x ∈ t.pool.workers) : t.pool.canStepWorker x = false :=
    List.findIdx?_eq_none_iff.1 still x hx
  have same : t.pool.workers = s.pool.workers := by
    refine List.ext_getElem? fun j => ?_
    rcases h.alike.workers j with same | woken
    · exact same
    · cases hw : s.pool.workers[j]? with
      | none => rw [woken, hw]; rfl
      | some w =>
        rw [hw, Option.map_some] at woken
        rcases phase_notified w with ⟨-, checking⟩ | ⟨-, same⟩
        · have never := stuck w.notified (List.mem_of_getElem? woken)
          simp [Pool.canStepWorker, checking] at never
        · rw [woken, same]
  refine ⟨(next?_eq_none_iff h.calm.ready).2 ⟨h.stuck none, ?_⟩, same⟩
  refine List.findIdx?_eq_none_iff.2 fun x hx => ?_
  rw [← h.alike.canStepWorker]
  exact stuck x (same ▸ hx)

/-- A pending call that lasts has a counterpart that lasts. -/
theorem lasts_eq {k : Nat} (plain : t.pool.isPlain k = true) :
    lasts s.pool (t.pool.rank k) = lasts t.pool k := by
  obtain ⟨c, hc, plain⟩ := isPlain_iff.1 plain
  rw [lasts, lasts, hc, h.alike.getElem?_call hc plain]

/-- Both sessions forget the calls that have returned. -/
theorem forget :
    Shadows config spawner { s with pending := s.pending.filter (lasts s.pool) }
      { t with pending := t.pending.filter (lasts t.pool) } := by
  refine ⟨⟨h.calm.reached, h.calm.ready, h.calm.nodup.filter _,
      fun k hk => h.calm.inside k (List.mem_filter.1 hk).1⟩,
    ⟨h.disturbed.reached, h.disturbed.ready, h.disturbed.nodup.filter _,
      fun k hk => h.disturbed.inside k (List.mem_filter.1 hk).1⟩, ?_, h.alike, ?_⟩
  · exact fun k c hc unfinished =>
      List.mem_filter.2 ⟨h.attended k c hc unfinished, lasts_iff.2 ⟨c, hc, unfinished⟩⟩
  · show s.pending.filter (lasts s.pool) =
      ((t.pending.filter (lasts t.pool)).filter t.pool.isPlain).map t.pool.rank
    rw [h.pending, List.filter_map, List.filter_filter, List.filter_filter]
    refine congrArg (List.map _) (List.filter_congr fun k _ => ?_)
    cases plain : t.pool.isPlain k with
    | false => simp
    | true => simp [h.lasts_eq plain]

end Shadows

/-! ## Calls that are made -/

/-- A call that is made is pending, unless it only signals. -/
theorem pending_enter {p q : Pool} {pending : List Nat} {wake : Bool}
    (hq : q.wakes = p.wakes ++ [wake]) (inside : ∀ k ∈ pending, k < p.calls.size) :
    ((pending ++ [p.calls.size]).filter q.isPlain).map q.rank =
      (pending.filter p.isPlain).map p.rank ++ if wake then [] else [p.rank p.calls.size] := by
  have plain : pending.filter q.isPlain = pending.filter p.isPlain :=
    List.filter_congr fun k hk => isPlain_of_append hq (inside k hk)
  have ranks : (pending.filter p.isPlain).map q.rank = (pending.filter p.isPlain).map p.rank :=
    List.map_congr_left fun k hk => rank_of_append hq (inside k (List.mem_filter.1 hk).1).le
  have last : q.isPlain p.calls.size = !wake := by
    rw [isPlain, hq, ← length_wakes, List.getElem?_concat_length]
    cases wake <;> rfl
  rw [List.filter_append, List.map_append, plain, ranks]
  cases wake with
  | true => simp [last]
  | false => simp [last, rank_of_append hq (Nat.le_refl _)]

/-- A call that does more than signal keeps the number that it gets when it is made. -/
theorem rank_of_enter {p q : Pool} {later : List Bool}
    (hq : q.wakes = p.wakes ++ ([false] ++ later)) :
    q.isPlain p.calls.size = true ∧ q.rank p.calls.size = p.rank p.calls.size := by
  refine ⟨?_, rank_of_append hq (Nat.le_refl _)⟩
  rw [isPlain, hq, ← length_wakes, List.getElem?_append_right (Nat.le_refl _)]
  simp

namespace Shadows

variable (h : Shadows config spawner s t)

include h

/-- Signalling a slot makes no difference. -/
theorem enter_wake (thread : Thread) (i : Nat) :
    Shadows config spawner s (t.enter thread (.wake i)) := by
  refine ⟨h.calm, h.disturbed.enter thread _, h.attended, h.alike.begin_wake thread i, ?_⟩
  have pending := pending_enter (wakes_begin h.disturbed.ready thread (.wake i)) h.disturbed.inside
  rw [← h.pending] at pending
  exact (pending.trans (List.append_nil _)).symm

theorem enter (thread : Thread) {request : Request} (plain : request.isWake = false) :
    Shadows config spawner (s.enter thread request) (t.enter thread request) := by
  refine ⟨h.calm.enter thread _, h.disturbed.enter thread _,
    h.attended.enter h.calm.reached.sound h.calm.ready thread _,
    h.alike.begin_plain h.disturbed.ready thread plain, ?_⟩
  have pending := pending_enter (wakes_begin h.disturbed.ready thread request) h.disturbed.inside
  rw [← h.pending, h.alike.rank_size, plain] at pending
  exact pending.symm

theorem begin (turn : Turn) : Shadows config spawner (s.begin turn) (t.begin turn) := by
  cases turn with
  | submit ending gated =>
    have idle : t.pool.idle = s.pool.idle := by rw [h.alike.rest]
    simp only [Session.begin, idle, h.control_eq]
    exact h.enter _ rfl
  | release job => exact h.both (h.alike.release job) (by simp) (by simp)
  | reap =>
    have running : t.running = s.running := by
      unfold running jobStatus
      rw [h.alike.rest]
    simp only [Session.begin, running]
    exact h.enter _ rfl

end Shadows

/-! ## Turns -/

/-- The disturbed session is as far as the other one comes by itself. -/
def Trails (config : Config) (spawner : Nat → Except StartFailure (Option Payload.Inert))
    (s t : Session) : Prop :=
  ∃ s', ReflTransGen Goes s s' ∧ Shadows config spawner s' t

theorem Proper.wakes_goes (h : t.Proper config spawner) {t' : Session}
    (goes : ReflTransGen Goes t t') : t'.pool.wakes = t.pool.wakes := by
  induction goes with
  | refl => rfl
  | tail first last ih =>
    obtain ⟨a, next, rfl⟩ := last
    rw [← ih]
    exact (h.goes first).reached.sound.wakes_step (next?_ne_begin next)

theorem Proper.wakes_settle (h : t.Proper config spawner) :
    t.settle.pool.wakes = t.pool.wakes :=
  (h.wakes_goes (goes_run t.fuel t) :)

namespace Trails

theorem proper (h : Trails config spawner s t) : t.Proper config spawner := by
  obtain ⟨_, -, shadows⟩ := h
  exact shadows.disturbed

theorem goes (h : Trails config spawner s t) {t' : Session} (goes : ReflTransGen Goes t t') :
    Trails config spawner s t' := by
  induction goes with
  | refl => exact h
  | tail _ last ih =>
    obtain ⟨s', trail, shadows⟩ := ih
    obtain ⟨s'', more, shadows⟩ := shadows.goes last
    exact ⟨s'', trail.trans more, shadows⟩

/-- A disturbance makes no difference, and the calls made so far keep their numbers. -/
theorem disturb (h : Trails config spawner s t) (d : Disturbance) :
    Trails config spawner s (t.disturb d) ∧
      ∃ later, (t.disturb d).pool.wakes = t.pool.wakes ++ later := by
  obtain ⟨s', trail, shadows⟩ := h
  have sound := shadows.disturbed.reached.sound
  have ready := shadows.disturbed.ready
  cases d with
  | wake thread i => exact ⟨⟨s', trail, shadows.enter_wake thread i⟩, _, wakes_begin ready _ _⟩
  | proceed k =>
    simp only [Session.disturb]
    split
    · next signals =>
      obtain ⟨c, hc, wake⟩ := (Option.any_eq_true _ _).1 signals
      exact ⟨⟨s', trail, shadows.alone (shadows.alike.step_wake sound hc wake) (by simp)⟩, [],
        by rw [List.append_nil]; exact sound.wakes_step (by simp)⟩
    · exact ⟨⟨s', trail, shadows⟩, [], (List.append_nil _).symm⟩
  | rouse i =>
    exact ⟨⟨s', trail, shadows.alone (shadows.alike.notified ready i) (by simp)⟩, [],
      by rw [List.append_nil]; exact sound.wakes_step (by simp)⟩
  | goOn =>
    simp only [Session.disturb]
    split
    · exact ⟨⟨s', trail, shadows⟩, [], (List.append_nil _).symm⟩
    · next a next =>
      exact ⟨goes ⟨s', trail, shadows⟩ (.single ⟨a, next, rfl⟩), [],
        by rw [List.append_nil]; exact sound.wakes_step (next?_ne_begin next)⟩

theorem disturbAll (h : Trails config spawner s t) (ds : List Disturbance) :
    Trails config spawner s (ds.foldl Session.disturb t) ∧
      ∃ later, (ds.foldl Session.disturb t).pool.wakes = t.pool.wakes ++ later := by
  induction ds generalizing t with
  | nil => exact ⟨h, [], (List.append_nil _).symm⟩
  | cons d ds ih =>
    obtain ⟨trails, later, grown⟩ := h.disturb d
    obtain ⟨trails, last, wakes⟩ := ih trails
    exact ⟨trails, later ++ last, by rw [List.foldl_cons, wakes, grown, List.append_assoc]⟩

/-- Both sessions come to rest with the same pool, but for the calls that only signal. -/
theorem settle (h : Trails config spawner s t) (proper : s.Proper config spawner) :
    Shadows config spawner s.settle t.settle ∧ t.settle.pool.quiet = s.settle.pool := by
  obtain ⟨s', trail, shadows⟩ := h
  have rest := shadows.disturbed.next?_run shadows.disturbed.effort_le_fuel
  obtain ⟨u, trail, shadows⟩ := goes ⟨s', trail, shadows⟩ (goes_run t.fuel t)
  obtain ⟨still, same⟩ := shadows.rests rest
  have settled : run s.fuel s = u := proper.run_eq trail still
  have forgets : s.settle = { u with pending := u.pending.filter (lasts u.pool) } := by
    rw [← settled]
    rfl
  rw [forgets]
  exact ⟨shadows.forget, shadows.alike.quiet_eq same⟩

end Trails

theorem Turn.outcome_congr (turn : Turn) {x y : Option Activity}
    (same : (∀ job, turn ≠ .release job) → x = y) : turn.outcome x = turn.outcome y := by
  cases turn with
  | release job => rfl
  | submit | reap => rw [same (by simp)]

/-- A turn that makes a call makes one that does more than signal. -/
theorem begin_wakes (h : s.Proper config spawner) {turn : Turn}
    (called : ∀ job, turn ≠ .release job) :
    (s.begin turn).pool.wakes = s.pool.wakes ++ [false] := by
  cases turn with
  | release job => exact absurd rfl (called job)
  | submit | reap => exact wakes_begin h.ready _ _

/-- A turn that is disturbed has the outcome that it has when it is left alone, and leaves the same
pool, but for the calls that only signal. -/
theorem Shadows.act (h : Shadows config spawner s t) (rest : s.next? = none) (d : DisturbedTurn) :
    (t.actDisturbed d).1 = (s.act d.turn).1 ∧
      (t.actDisturbed d).2.pool.quiet = (s.act d.turn).2.pool ∧
        Shadows config spawner (s.act d.turn).2 (t.actDisturbed d).2 ∧
          (s.act d.turn).2.next? = none := by
  rw [act_eq, actDisturbed]
  dsimp only
  -- what happens before the turn changes nothing, since everybody is at rest
  replace h : Shadows config spawner s (d.before.foldl Session.disturb t) := by
    obtain ⟨⟨s', trail, before⟩, -⟩ := Trails.disturbAll ⟨s, .refl, h⟩ d.before
    rcases trail.cases_head with rfl | ⟨u, ⟨a, next, -⟩, -⟩
    · exact before
    · rw [rest] at next
      cases next
  generalize d.before.foldl Session.disturb t = t at h ⊢
  have begun := h.begin d.turn
  obtain ⟨trails, later, grown⟩ := Trails.disturbAll ⟨_, .refl, begun⟩ d.during
  obtain ⟨settled, quiet⟩ := trails.settle begun.calm
  refine ⟨d.turn.outcome_congr fun called => ?_, quiet, settled, begun.calm.settle.2⟩
  -- the call of the turn has its counterpart, which is the last one of the session left alone
  have wakes := begin_wakes h.disturbed called
  rw [wakes, ← trails.proper.wakes_settle, List.append_assoc] at grown
  obtain ⟨plain, rank⟩ := rank_of_enter grown
  obtain ⟨c, hc, plain⟩ := isPlain_iff.1 plain
  have counterpart := settled.alike.getElem?_call hc plain
  have size : (s.begin d.turn).settle.pool.calls.size = s.pool.calls.size + 1 := by
    rw [← length_wakes, begun.calm.wakes_settle, begin_wakes h.calm called, List.length_append,
      length_wakes]
    rfl
  rw [rank, h.alike.rank_size] at counterpart
  rw [hc, last?, Array.back?_eq_getElem?, size, Nat.add_sub_cancel, counterpart]

/-- What is seen of a sequential run does not depend on what disturbs it. -/
theorem Shadows.play (h : Shadows config spawner s t) (rest : s.next? = none)
    (turns : List DisturbedTurn) : t.playDisturbed turns = s.play (turns.map (·.turn)) := by
  induction turns generalizing s t with
  | nil => rfl
  | cons d turns ih =>
    obtain ⟨outcome, quiet, next, still⟩ := h.act rest d
    rw [playDisturbed, List.map_cons, Session.play, outcome, quiet, ih next still]

/-- A session of which nobody has made a call shadows itself. -/
theorem Fresh.shadows (h : s.Fresh config spawner) (ready : s.pool.creation = .ready) :
    Shadows config spawner s s := by
  have none (k : Nat) : s.pool.calls[k]? = none := by simp [h.uncalled]
  have proper : s.Proper config spawner :=
    ⟨h.reached, ready, by simp [h.pending], by simp [h.pending]⟩
  refine ⟨proper, proper, fun k c hc => ?_, ⟨rfl, fun j => .inl rfl, ?_⟩, by simp [h.pending]⟩
  · rw [none] at hc
    cases hc
  · simp [h.uncalled]

end Session

/-- Extra wake-ups are harmless.  In every state that a run reaches they change nothing that anybody
but a waiting worker could notice, and a worker that was woken in vain goes back to wait; hence no
sequential run can be told from one that they disturb, in whichever order the workers got ready for
it. -/
theorem Reachable.wakes_harmless {p : Pool} (h : Reachable config spawner p) :
    p.Inert ∧
      (∀ s : Session, s.Fresh config spawner → s.pool.creation = .ready → s.next? = none →
        ∀ turns : List Session.DisturbedTurn,
          s.playDisturbed turns = s.play (turns.map (·.turn))) ∧
      ((Session.start config spawner).pool.creation = .ready →
        ∀ turns : List Session.DisturbedTurn,
          (Session.start config spawner).playDisturbed turns =
            (Session.start config spawner).play (turns.map (·.turn))) := by
  have alike (s : Session) (fresh : s.Fresh config spawner) (ready : s.pool.creation = .ready)
      (rest : s.next? = none) (turns : List Session.DisturbedTurn) :
      s.playDisturbed turns = s.play (turns.map (·.turn)) :=
    (fresh.shadows ready).play rest turns
  obtain ⟨fresh, rest⟩ := Session.start_rests config spawner
  exact ⟨h.inert, alike, fun ready => alike _ fresh ready rest⟩

/-- A job is handed in, its task comes to its end, and the pool is reaped; meanwhile both workers
are woken again and again, and so is a third one that does not exist. -/
def restless : List Session.DisturbedTurn := [
  ⟨.submit (.ok ()) true, [.wake .main 0, .wake .submitter 7, .goOn, .proceed 0],
    [.goOn, .rouse 0, .wake .reaper 1, .goOn, .goOn, .goOn, .goOn, .rouse 1, .rouse 0]⟩,
  ⟨.release 0, [.wake .main 0, .goOn], [.wake .main 1, .goOn, .rouse 1]⟩,
  ⟨.reap, [.rouse 0], [.goOn, .goOn, .goOn, .wake .submitter 0, .goOn, .rouse 1]⟩]

/-- The second worker gets into the idle queue before the first one. -/
def crosswise : List Action :=
  List.replicate 6 .creation ++ [.worker 1, .worker 0] ++ List.replicate 3 .creation ++
    [.worker 1, .worker 1, .worker 0, .worker 0]

/-- The restless run has the outcomes that it should have, whichever worker comes first. -/
theorem wakes_harmless_restless :
    let s : Session := { pool := (create pair steady).run crosswise }
    ((create pair steady).run calm).Inert ∧
      ((Session.start pair steady).pool.creation = .ready ∧
        ((Session.start pair steady).playDisturbed restless).map (·.1) =
          [.placed (.installed 0), .released, .reaped true]) ∧
      s.Fresh pair steady ∧ s.pool.creation = .ready ∧ s.next? = none ∧
        (s.playDisturbed restless).map (·.1) =
          [.placed (.installed 1), .released, .reaped true] := by
  intro s
  have ready : (Session.start pair steady).pool.creation = .ready := by decide +kernel
  have fresh : s.Fresh pair steady := ⟨Reachable.start.run crosswise, by decide +kernel, rfl⟩
  have made : s.pool.creation = .ready := by decide +kernel
  have rest : s.next? = none := by decide +kernel
  obtain ⟨inert, alike, same⟩ := Reachable.wakes_harmless
    (Reachable.start.run calm : Reachable pair steady _)
  refine ⟨inert, ⟨ready, ?_⟩, fresh, made, rest, ?_⟩
  · rw [same ready restless]
    decide +kernel
  · rw [alike s fresh made rest restless]
    decide +kernel

end Pool

end Interlock
