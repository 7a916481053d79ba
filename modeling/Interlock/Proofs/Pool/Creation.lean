import Interlock.Proofs.Pool.Progress
import Interlock.Proofs.Pool.Spawning

/-!
# How a pool is made, and how its making fails

A bad configuration is rejected before anything is done.  If the thread of a worker is refused, the
threads started before it are stopped and joined, wherever they have come to, and nothing is left of
the pool (`RolledBack`).  If all threads are started, the pool is handed out with all its workers
asleep.  In each case the maker gets there, in whatever order he and the workers get turns
(`creation_run`).
-/

namespace Interlock.Pool

open scoped List

variable {config : Config} {spawner : Nat → Except StartFailure (Option Payload.Inert)}
  {p q : Pool} {log : Array (Thread × Log.Line)} {k : Nat} {reason : StartFailure}

/-! ## A bad configuration -/

theorem Reachable.rejected (h : Reachable config spawner p) {e : ConfigError}
    (bad : config.validate = .error e) :
    p.creation = .failed (.invalidConfig e) ∧ p.spawned = [] := by
  refine h.keep (motive := fun p => p.creation = .failed (.invalidConfig e) ∧ p.spawned = []) ?_ ?_
  · simp [create, bad]
  · rintro p q log a - - m ⟨failed, none⟩
    have still : ¬ CreationMove p log q := by
      intro m
      cases m <;> simp_all
    obtain ⟨-, spawned⟩ := m.asks.resolve_left still
    refine ⟨?_, spawned.trans none⟩
    rcases m.creation_eq.resolve_left still with same | ⟨i, same⟩
    · rw [same, failed]
    · rw [same, failed]
      rfl

/-! ## What is left when the maker has undone his work -/

/-- Whose doing it is. -/
def Handling.party : Handling → Party
  | .took who _ => who
  | .joined who _ => who

theorem standing_of_handling {a : Action} {event : Handling} (h : event ∈ handling p a q) :
    ∃ r, p.standing event.party = some r := by
  unfold handling at h
  split at h
  · cases h
  · next who hwho =>
    split at h
    · next handles n before after =>
      obtain rfl := List.mem_singleton.1 h
      exact ⟨_, before⟩
    · next i left n left' n' before after =>
      split at h
      · obtain rfl := List.mem_singleton.1 h
        exact ⟨_, before⟩
      · cases h
    · next i left n payload before after =>
      obtain rfl := List.mem_singleton.1 h
      exact ⟨_, before⟩
    · cases h

/-- Before the first call nobody but the maker does anything with the handles of the threads. -/
theorem party_of_seen (config : Config) (spawner : Nat → Except StartFailure (Option Payload.Inert))
    (actions : List Action) (uncalled : ((create config spawner).run actions).calls = #[]) :
    ∀ event ∈ (create config spawner).seen handling actions, event.party = .maker := by
  refine seen_keep (motive := fun p (events : List Handling) => p.calls = #[] →
    ∀ event ∈ events, event.party = .maker) (by simp) ?_ actions uncalled
  intro p q log a events _ m ih uncalled event hevent
  have before := (m.early uncalled).1
  rcases List.mem_append.1 hevent with old | new
  · exact ih before event old
  · obtain ⟨r, hr⟩ := standing_of_handling new
    cases hparty : event.party with
    | maker => rfl
    | caller k =>
      rw [hparty] at hr
      obtain ⟨c, hc, -⟩ := standing_caller.1 hr
      simp [before] at hc

theorem uncalled_of_run (h : Reachable config spawner p) (actions : List Action)
    (uncalled : (p.run actions).calls = #[]) : p.calls = #[] := by
  induction actions generalizing p with
  | nil => exact uncalled
  | cons a actions ih =>
    exact ((h.sound.move_step a).2.early (ih (h.step a) uncalled)).1

/-- If nobody has called, the idle queue is empty when the workers have been joined. -/
theorem Reachable.idle_of_reaped (h : Reachable config spawner p) (uncalled : p.calls = #[])
    (reaped : p.control.isReaped = true) : p.idle = [] := by
  obtain ⟨actions, rfl⟩ := reachable_iff_run.1 h
  obtain ⟨before, a, after, -, -, rfl, -, -, -, left⟩ :=
    offered_run config spawner actions (.inl reaped)
  rw [run_append] at uncalled
  have earlier := uncalled_of_run (Reachable.start.run before) (a :: after) uncalled
  have nobody : ((create config spawner).run before).held = [] := by simp [held, earlier]
  rw [nobody] at left
  exact (List.append_eq_nil_iff.1 left.eq_nil).1

theorem refusal?_of_undone {creation : Creation} (undone : creation.isUndone = true) :
    ∃ i reason, creation.refusal? = some (i, reason) ∧
      ∀ j, creation.unborn j = if i ≤ j then some .notRunning else none := by
  cases creation with
  | dropping i reason r => exact ⟨i, reason, rfl, fun _ => rfl⟩
  | failed e =>
    cases e with
    | spawn i reason => exact ⟨i, reason, rfl, fun _ => rfl⟩
    | stopped | invalidConfig => cases undone
  | _ => cases undone

/-- What is left of a pool when the thread of worker `k` was refused and the maker has undone his
work, given what was seen of the handles of the threads. -/
structure RolledBack (config : Config) (k : Nat) (p : Pool) (events : List Handling) : Prop where
  /-- The threads up to that one were asked for, in order, and no others. -/
  spawned : p.spawned = (List.range (k + 1)).reverse
  /-- The maker has joined each of those before it, and they are over. -/
  joined : ∃ all, all ~ List.range k ∧ events = .took .maker all :: all.map (.joined .maker)
  ended : ∀ i < k, p.IsOver i
  unstarted : ∀ i, k ≤ i → ¬ p.IsBorn i
  size : p.size = config.workers
  slots : ∀ (i : Nat) (w : Worker), p.workers[i]? = some w →
    w.slot.status = .notRunning ∧ w.slot.cell = none
  live : p.live.value = 0
  idle : p.idle = []
  stopping : p.control.isStopping = true
  reaped : p.control.isReaped = true

theorem rolledBack_run (actions : List Action) (valid : config.validate = .ok ())
    (within : k < config.workers) (first : RefusesFirst spawner k reason)
    (undone : ((create config spawner).run actions).creation.isUndone = true) :
    RolledBack config k ((create config spawner).run actions)
      ((create config spawner).seen handling actions) := by
  have h : Reachable config spawner ((create config spawner).run actions) :=
    Reachable.start.run actions
  have custody := custody_run config spawner actions
  have makers := party_of_seen config spawner actions
  set p := (create config spawner).run actions
  have sound := h.sound
  have size := h.size_eq valid
  have uncalled := sound.uncalled (by rintro ready; simp [ready, Creation.isUndone] at undone)
  have reaped := h.reaped_of_undone undone
  have torn := h.tornDown reaped
  have jobless : p.installed = [] := by simp [installed, uncalled]
  obtain ⟨slots, live, -⟩ := torn.clean (by simp [jobless])
  obtain ⟨n, asked⟩ := h.asked valid
  obtain ⟨i, reason', refused, unborn⟩ := refusal?_of_undone undone
  obtain ⟨rfl, rfl⟩ := asked.eq_first first refused
  obtain rfl := asked.eq_of_refusal refused
  have born (j : Nat) : p.IsBorn j ↔ j < i := by
    constructor
    · rintro ⟨w, hw, started⟩
      have told := sound.making.born j w hw started
      rw [unborn] at told
      by_contra after
      rw [if_pos (by omega)] at told
      cases told
    · intro before
      have inside : j < p.workers.length := by
        rw [← size] at within
        exact before.trans within
      obtain ⟨w, hw⟩ : ∃ w, p.workers[j]? = some w := ⟨_, List.getElem?_eq_getElem inside⟩
      refine ⟨w, hw, fun never => ?_⟩
      have told := sound.making.unborn j w hw never
      rw [unborn, if_neg (by omega)] at told
      cases told
  generalize (create config spawner).seen handling actions = events at custody makers
  cases custody with
  | gathering unreaped => simp [reaped] at unreaped
  | taken who done left handles nodup all finished joins =>
    obtain rfl : left = [] := by rwa [Joins, if_pos reaped] at joins
    obtain rfl : who = .maker := makers uncalled _ List.mem_cons_self
    rw [List.append_nil] at nodup all ⊢
    have listed (j : Nat) : j ∈ done ↔ j ∈ List.range i := by
      rw [← all, born, List.mem_range]
    exact {
      spawned := asked.spawned
      joined := ⟨done, (List.perm_ext_iff_of_nodup nodup List.nodup_range).2 listed, rfl⟩
      ended := fun j before => finished j ((listed j).2 (List.mem_range.2 before))
      unstarted := fun j after started => absurd ((born j).1 started) (by omega)
      size, slots := fun j w hw => ⟨slots j w hw, torn.cells j w hw⟩, live
      idle := h.idle_of_reaped uncalled reaped
      stopping := torn.stopping, reaped }

/-! ## Every run -/

/-- No move of a worker's status was refused: nothing of the kind was logged, no thread has ended by
it, and the maker has not unwound. -/
structure Unrefused (p : Pool) : Prop where
  moves : ∀ entry ∈ p.log, ∀ m : Worker.IllegalMove, entry.2 ≠ .error m.message
  exits : ∀ (i : Nat) (w : Worker) (payload : Option Payload), p.workers[i]? = some w →
    w.phase = .ended payload → payload = w.exit.map Subtype.val
  maker : ∀ payload, p.creation ≠ .broken payload

theorem Reachable.unrefused (h : Reachable config spawner p) : p.Unrefused where
  moves entry hentry m refused := not_routine_refused m (refused ▸ h.routine entry hentry)
  exits i w payload hw := (h.sound.slots i w hw).ends payload
  maker := h.sound.making.unbroken

/-- A pool of which the thread of worker `k` is the first to be refused. -/
structure Fails (config : Config) (k : Nat) (reason : StartFailure) (p : Pool)
    (events : List Handling) : Prop where
  /-- Threads are asked for in order, and none after the one that is refused. -/
  asked : ∃ n ≤ k + 1, p.spawned = (List.range n).reverse
  unready : p.creation ≠ .ready
  failed : ∀ e, p.creation = .failed e → e = .spawn k reason
  unrefused : p.Unrefused
  undone : p.creation.isUndone = true → RolledBack config k p events
  /-- When all is undone the pool is dropped, which does nothing more. -/
  dropped : ∀ i reason' r, p.creation = .dropping i reason' r →
    p.step .creation = { p with creation := .failed (.spawn i reason') }

/-- A pool of which all threads are started. -/
structure Succeeds (config : Config) (p : Pool) : Prop where
  unfailed : ∀ e, p.creation ≠ .failed e
  unrefused : p.Unrefused
  /-- When it is ready, and before the first call of it, all its workers sleep. -/
  ready : p.creation = .ready → p.calls = #[] →
    p.size = config.workers ∧ p.spawned = (List.range config.workers).reverse ∧ p.AllAsleep

theorem Reachable.succeeds (h : Reachable config spawner p) (valid : config.validate = .ok ())
    (started : ∀ i < config.workers, ∃ exit, spawner i = .ok exit) : Succeeds config p where
  unfailed e failed := by
    obtain ⟨n, asked⟩ := h.asked valid
    obtain ⟨i, reason, -, refused⟩ := asked.refusal?_of_failed failed
    rw [asked.refusal?_eq_none (by rwa [h.size_eq valid])] at refused
    cases refused
  unrefused := h.unrefused
  ready made uncalled := by
    obtain ⟨n, asked⟩ := h.asked valid
    have size := h.size_eq valid
    have all : p.size = n := by
      have asked := asked.asked
      rw [made] at asked
      exact Option.some.inj asked
    refine ⟨size, ?_, h.asleep_of_ready uncalled made⟩
    rw [asked.spawned, ← all, size]

theorem fails_run (actions : List Action) (valid : config.validate = .ok ())
    (within : k < config.workers) (first : RefusesFirst spawner k reason) :
    Fails config k reason ((create config spawner).run actions)
      ((create config spawner).seen handling actions) := by
  have h : Reachable config spawner ((create config spawner).run actions) :=
    Reachable.start.run actions
  obtain ⟨n, asked⟩ := h.asked valid
  refine ⟨⟨n, asked.le_of_first first, asked.spawned⟩,
    asked.unready first (by rwa [h.size_eq valid]), fun e failed => ?_, h.unrefused,
    rolledBack_run actions valid within first, fun _ _ _ => h.step_dropping⟩
  obtain ⟨i, reason', rfl, refused⟩ := asked.refusal?_of_failed failed
  obtain ⟨rfl, rfl⟩ := asked.eq_first first refused
  rfl

/-- **How a pool is made.**  A bad configuration is rejected, and no thread is asked for.  If the
thread of worker `k` is the first to be refused, the pool fails with that, and all that was started
is stopped and joined by then.  If all threads are started, the pool gets ready, with all its
workers asleep.  In both cases the maker comes to the end, whoever else does something in between,
as long as he and the workers get turns. -/
theorem creation_run (config : Config)
    (spawner : Nat → Except StartFailure (Option Payload.Inert)) :
    let after (actions : List Action) := (create config spawner).run actions
    (∀ e, config.validate = .error e → ∀ actions,
      (after actions).creation = .failed (.invalidConfig e) ∧ (after actions).spawned = []) ∧
    (config.validate = .ok () →
      (∀ k reason, k < config.workers → RefusesFirst spawner k reason →
        (∀ actions, Fails config k reason (after actions)
          ((create config spawner).seen handling actions)) ∧
        ∀ schedule, Fair config.workers schedule →
          ∃ t, (after (firstActions schedule t)).creation = .failed (.spawn k reason)) ∧
      ((∀ i < config.workers, ∃ exit, spawner i = .ok exit) →
        (∀ actions, Succeeds config (after actions)) ∧
        ∀ schedule, Fair config.workers schedule →
          ∃ t, (after (firstActions schedule t)).creation = .ready)) := by
  intro after
  have reached (actions : List Action) : Reachable config spawner (after actions) :=
    Reachable.start.run actions
  refine ⟨fun e bad actions => (reached actions).rejected bad, fun valid => ⟨?_, ?_⟩⟩
  · intro k reason within first
    have fails (actions : List Action) := fails_run actions valid within first
    refine ⟨fails, fun schedule fair => ?_⟩
    obtain ⟨t, finished⟩ := exists_over config spawner schedule valid fair
    refine ⟨t, ?_⟩
    rcases (reached (firstActions schedule t)).ready_or_failed finished with made | ⟨e, failed⟩
    · exact absurd made (fails (firstActions schedule t)).unready
    · rw [failed, (fails (firstActions schedule t)).failed e failed]
  · intro started
    have succeeds (actions : List Action) := (reached actions).succeeds valid started
    refine ⟨succeeds, fun schedule fair => ?_⟩
    obtain ⟨t, finished⟩ := exists_over config spawner schedule valid fair
    refine ⟨t, ?_⟩
    rcases (reached (firstActions schedule t)).ready_or_failed finished with made | ⟨e, failed⟩
    · exact made
    · exact absurd failed ((succeeds (firstActions schedule t)).unfailed e)

/-! ## A machine with room for two threads -/

/-- The workers and the maker take turns. -/
def turns (size t : Nat) : Action :=
  if t % (size + 1) < size then .worker (t % (size + 1)) else .creation

theorem fair_turns (size : Nat) : Fair size (turns size) := by
  have turn (t i : Nat) (hi : i < size + 1) :
      t ≤ (size + 1) * t + i ∧ ((size + 1) * t + i) % (size + 1) = i := by
    refine ⟨?_, by rw [Nat.mul_add_mod, Nat.mod_eq_of_lt hi]⟩
    exact Nat.le_add_right_of_le (Nat.le_mul_of_pos_left t (Nat.succ_pos size))
  constructor
  · intro t
    obtain ⟨later, own⟩ := turn t size (Nat.lt_succ_self size)
    exact ⟨_, later, by rw [turns, own, if_neg (Nat.lt_irrefl size)]⟩
  · intro i hi t
    obtain ⟨later, own⟩ := turn t i (Nat.lt_succ_of_lt hi)
    exact ⟨_, later, by rw [turns, own, if_pos hi]⟩

/-- Four workers and otherwise the defaults. -/
def four : Config := { pair with workers := 4 }

/-- Two threads are started, and no more. -/
def crowded (i : Nat) : Except StartFailure (Option Payload.Inert) :=
  if i < 2 then .ok none else .error (.described "thread limit")

theorem refusesFirst_crowded : RefusesFirst crowded 2 (.described "thread limit") :=
  ⟨fun _ before => ⟨none, if_pos before⟩, rfl⟩

/-- Of four threads the third is refused.  After fifty rounds of turns the maker has failed, and the
two threads that he had started are joined. -/
theorem creation_of_crowded :
    let actions := firstActions (turns 4) 250
    (((create four crowded).run actions).creation = .failed (.spawn 2 (.described "thread limit")) ∧
      (create four crowded).seen handling actions =
        [.took .maker [0, 1], .joined .maker 0, .joined .maker 1]) ∧
    RolledBack four 2 ((create four crowded).run actions)
      ((create four crowded).seen handling actions) ∧
    ∃ t, ((create four crowded).run (firstActions (turns 4) t)).creation =
      .failed (.spawn 2 (.described "thread limit")) := by
  intro actions
  obtain ⟨fails, ends⟩ :=
    ((creation_run four crowded).2 rfl).1 2 _ (by decide) refusesFirst_crowded
  have failed : ((create four crowded).run actions).creation =
      .failed (.spawn 2 (.described "thread limit")) := by decide +kernel
  exact ⟨⟨failed, by decide +kernel⟩, (fails actions).undone (by rw [failed]; rfl),
    ends (turns 4) (fair_turns 4)⟩

end Interlock.Pool
