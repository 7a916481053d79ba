import Interlock.Proofs.Pool.Early

/-!
# What remains to be done until a pool is made

Every step that is left to the maker of a pool, and to the workers that he has to wait for, is
counted in advance (`remaining`).  No move before the first call adds to the count: it gets smaller,
or nothing has happened but that a worker or the maker went to sleep.
-/

namespace Interlock

/-- The steps that remain to a worker's thread, if it gets no job. -/
def Worker.Phase.remaining : Worker.Phase → Nat
  | .unborn => 6
  | .attaching => 5
  | .resting => 5
  | .announcing => 4
  | .checking => 3
  | .waiting => 3
  | .detaching => 2
  | .reporting => 1
  | _ => 0

namespace Pool

variable {config : Config} {spawner : Nat → Except StartFailure (Option Payload.Inert)}
  {p q : Pool} {log : Array (Thread × Log.Line)} {a : Action}

/-! ## What remains to be done -/

/-- The steps that remain in signalling a slot. -/
def Nudge.remaining : Nudge → Nat
  | .looking _ => 3
  | .notifying _ => 2
  | .done _ => 1

/-- The steps that remain to a reaper without rival, but for those of emptying the idle queue and of
joining threads whose handles he has not taken. -/
def Reaping.remaining (size : Nat) : Reaping → Nat
  | .arriving => 3 * size + 15
  | .stopping => 3 * size + 14
  | .claiming => 3 * size + 13
  | .rechecking => 3 * size + 12
  | .broadcasting => 3 * size + 11
  | .nudging i n => 3 * (size - i) + 7 + n.remaining
  | .collecting => 7
  | .joining left _ => left.length + 6
  | .draining _ => 5
  | .marking _ => 4
  | .yielding _ => 3
  | .publishing _ => 2
  | .reporting _ => 1
  | .cancelling => 1
  | .awaiting => 1
  | .asleep => 0
  | .returned => 0
  | .broken _ => 0

/-- The steps that remain to the maker of a pool. -/
def Creation.remaining (size : Nat) : Creation → Nat
  | .preparing i => 4 * (size - i) + 7 * size + 37
  | .spawning i => 4 * (size - i) + 7 * size + 36
  | .storing i => 4 * (size - i) + 7 * size + 35
  | .undoing _ _ => 6 * size + 34
  | .noting _ _ => 6 * size + 33
  | .rollingBack _ _ r => r.remaining size + 3 * size + 17
  | .dropping _ _ r => r.remaining size + 1
  | .awaiting i => size - i + 2
  | .asleep i => size - i + 2
  | .announcing => 1
  | _ => 0

/-- The steps that remain to all workers. -/
def toil (p : Pool) : Nat := (p.workers.map (·.phase.remaining)).sum

/-- The steps that remain until a pool is made; a worker that goes to sleep adds its index to the
idle queue, and the maker adds the handle of a thread, at the price of a step of their own. -/
def remaining (p : Pool) : Nat :=
  p.creation.remaining p.size + 2 * p.toil + p.idle.length + p.handles.length

theorem Nudge.remaining_pos (n : Nudge) : 0 < n.remaining := by
  cases n <;> simp [Nudge.remaining]

theorem remaining_notified (w : Worker) : w.notified.phase.remaining = w.phase.remaining := by
  rcases phase_notified w with ⟨waiting, checking⟩ | ⟨-, same⟩
  · rw [waiting, checking]
    rfl
  · rw [same]

theorem Undisturbed.toil_eq (h : Undisturbed p q) : q.toil = p.toil := by
  refine congrArg List.sum (List.ext_getElem? fun j => ?_)
  simp only [List.getElem?_map]
  rcases h j with same | woken
  · rw [same]
  · rw [woken, Option.map_map]
    exact congrArg (Option.map · _) (funext remaining_notified)

/-- Putting a worker into its place changes a sum over the workers by the worker's own part. -/
theorem sum_putWorker (f : Worker → Nat) {i : Nat} {w : Worker} (hw : p.workers[i]? = some w)
    (x : Worker) :
    ((p.putWorker i x).workers.map f).sum + f w = (p.workers.map f).sum + f x := by
  have swap := List.getD_set_perm_cons p.workers i x
  rw [hw, Option.getD_some] at swap
  have same := (swap.map f).sum_nat
  rw [List.map_cons, List.map_cons, List.sum_cons, List.sum_cons] at same
  simp only [putWorker]
  omega

theorem toil_put {i : Nat} {w : Worker} (hw : p.workers[i]? = some w) (x : Worker) :
    (p.putWorker i x).toil + w.phase.remaining = p.toil + x.phase.remaining :=
  sum_putWorker (·.phase.remaining) hw x

@[simp] theorem Creation.remaining_roused (size j : Nat) (creation : Creation) :
    (creation.roused j).remaining size = creation.remaining size := by
  unfold roused
  split
  · next h => rw [h]; rfl
  · rfl

theorem remaining_nudgeFrom (size i : Nat) :
    (Reaping.nudgeFrom size i).remaining size ≤ 3 * (size - i) + 10 ∧
      (Reaping.nudgeFrom size (i + 1)).remaining size ≤ 3 * (size - i) + 7 := by
  unfold Reaping.nudgeFrom
  constructor <;> split <;> simp only [Reaping.remaining, Nudge.remaining] <;> omega

/-! ## Moves do not add to it -/

theorem NudgeMove.remaining {n n' : Nudge} (m : NudgeMove p n n' q) :
    n'.remaining < n.remaining ∨ n' = n ∧ q = p := by
  cases m with
  | stay => exact .inr ⟨rfl, rfl⟩
  | look | miss | notify => exact .inl (by simp [Nudge.remaining])

/-- A reaper gets on, or nothing happens. -/
theorem ReapingMove.remaining {r r' : Reaping} (m : ReapingMove p log r r' q) :
    r'.remaining p.size + q.idle.length + q.handles.length <
        r.remaining p.size + p.idle.length + p.handles.length ∨ r' = r ∧ q = p := by
  cases m with
  | stay => exact .inr ⟨rfl, rfl⟩
  | broadcast =>
    have bound := (remaining_nudgeFrom p.size 0).1
    have before : Reaping.broadcasting.remaining p.size = 3 * p.size + 11 := rfl
    omega
  | @nudge i n n' q m =>
    rw [m.idle_eq, m.handles_eq]
    have before : (Reaping.nudging i n).remaining p.size = 3 * (p.size - i) + 7 + n.remaining := rfl
    have positive := n.remaining_pos
    cases n' with
    | done reached =>
      have bound := (remaining_nudgeFrom p.size i).2
      have after : Reaping.afterNudge p.size i (.done reached) = .nudgeFrom p.size (i + 1) := rfl
      rw [after]
      omega
    | looking j | notifying j =>
      rcases m.remaining with less | ⟨rfl, rfl⟩
      · exact .inl (by simpa [Reaping.afterNudge, Reaping.remaining] using less)
      · exact .inr ⟨rfl, rfl⟩
  | drain front =>
    left
    simp [Reaping.remaining, front]
  | collect =>
    left
    simp only [Reaping.remaining, List.length_nil]
    omega
  | join hw ended =>
    left
    simp only [Reaping.remaining, List.length_cons]
    omega
  | joined | drained =>
    left
    simp [Reaping.remaining]
  | _ =>
    left
    simp [Reaping.remaining, notifyReaped]

theorem afterRollback_of_ne {i : Nat} {reason : StartFailure} {r : Reaping} (h : r ≠ .returned) :
    Creation.afterRollback i reason r = .rollingBack i reason r := by
  cases r <;> first | rfl | exact absurd rfl h

theorem afterDrop_of_ne {i : Nat} {reason : StartFailure} {r : Reaping} (h : r ≠ .returned) :
    Creation.afterDrop i reason r = .dropping i reason r := by
  cases r <;> first | rfl | exact absurd rfl h

theorem remaining_prepareFrom {size i : Nat} (inside : i < size) :
    (Creation.prepareFrom size (i + 1)).remaining size + 2 ≤
      (Creation.storing i).remaining size := by
  unfold Creation.prepareFrom
  split
  · simp only [Creation.remaining]
    omega
  · rw [if_pos (by omega)]
    simp only [Creation.remaining]
    omega

theorem remaining_awaitFrom (size i : Nat) :
    (Creation.awaitFrom size (i + 1)).remaining size < (Creation.awaiting i).remaining size := by
  unfold Creation.awaitFrom
  split <;> simp only [Creation.remaining] <;> omega

theorem remaining_lt (hsize : q.size = p.size)
    (less : q.creation.remaining p.size + 2 * q.toil + q.idle.length + q.handles.length <
      p.creation.remaining p.size + 2 * p.toil + p.idle.length + p.handles.length) :
    q.remaining < p.remaining := by
  unfold remaining
  rwa [hsize]

/-- The maker of a pool gets on, or nothing happens, or he goes to sleep at the slot of a worker
that starts. -/
theorem CreationMove.remaining (m : CreationMove p log q) (hp : p.Sound) :
    q.remaining < p.remaining ∨ q = p ∨
      ∃ i, p.creation = .awaiting i ∧ p.status? i = some .starting ∧
        q = { p with creation := .asleep i } := by
  have size_eq := m.size_eq
  -- the maker goes on from `made` to `next`, with the workers of `s`
  have goes {s : Pool} {next : Creation} (hsize : s.size = p.size)
      (less : next.remaining p.size + 2 * s.toil + s.idle.length + s.handles.length <
        p.creation.remaining p.size + 2 * p.toil + p.idle.length + p.handles.length) :
      { s with creation := next }.remaining < p.remaining := remaining_lt hsize less
  -- what a reaper's move makes of the count
  have reaps {r r' : Reaping} {s : Pool} (m : ReapingMove p log r r' s) (next : Creation)
      (less : s.idle.length + s.handles.length + next.remaining p.size <
        p.idle.length + p.handles.length + p.creation.remaining p.size) :
      { s with creation := next }.remaining < p.remaining := by
    refine goes m.undisturbed.size_eq ?_
    rw [m.undisturbed.toil_eq]
    omega
  cases m with
  | @prepare i w hcreation hw =>
    have toil := toil_put hw { w with slot.status := .starting }
    refine .inl (goes size_eq ?_)
    show _ + 2 * (p.putWorker i _).toil + p.idle.length + p.handles.length < _
    rw [hcreation]
    simp only [Creation.remaining] at toil ⊢
    omega
  | @undo i w reason hcreation hw =>
    have toil := toil_put hw { w with slot.status := .notRunning }
    refine .inl (goes size_eq ?_)
    show _ + 2 * (p.putWorker i _).toil + p.idle.length + p.handles.length < _
    rw [hcreation]
    simp only [Creation.remaining] at toil ⊢
    omega
  | @spawn i w exit hcreation hw hs =>
    have unborn := (hp.making.unborn_of .starting hw (by simp [hcreation, Creation.unborn])).1
    have toil := toil_put hw { w with phase := .attaching, exit }
    refine .inl (goes size_eq ?_)
    show _ + 2 * (p.putWorker i _).toil + p.idle.length + p.handles.length < _
    rw [hcreation]
    simp only [Creation.remaining, unborn, Worker.Phase.remaining] at toil ⊢
    omega
  | @refuse i reason hcreation hs =>
    refine .inl (goes size_eq ?_)
    show _ + 2 * p.toil + p.idle.length + p.handles.length < _
    rw [hcreation]
    simp only [Creation.remaining]
    omega
  | @store i hcreation =>
    refine .inl (goes size_eq ?_)
    show _ + 2 * p.toil + p.idle.length + (p.handles ++ [i]).length < _
    have bound := remaining_prepareFrom (hp.making.current i (by rw [hcreation]; rfl))
    rw [hcreation, List.length_append, List.length_singleton]
    omega
  | @note i reason hcreation =>
    refine .inl (goes size_eq ?_)
    show _ + 2 * p.toil + p.idle.length + p.handles.length < _
    rw [hcreation]
    simp only [Creation.remaining, Reaping.remaining]
    omega
  | @rollBack i reason r r' s hcreation m =>
    by_cases returned : r' = .returned
    · subst returned
      refine .inl (reaps m (.dropping i reason .arriving) ?_)
      rw [hcreation]
      rcases m.remaining with less | ⟨rfl, rfl⟩ <;>
        simp only [Creation.remaining, Reaping.remaining] at * <;> omega
    · rw [afterRollback_of_ne returned]
      rcases m.remaining with less | ⟨rfl, rfl⟩
      · refine .inl (reaps m (.rollingBack i reason r') ?_)
        rw [hcreation]
        simp only [Creation.remaining]
        omega
      · exact .inr (.inl (by rw [← hcreation]))
  | @drop i reason r r' s hcreation m =>
    by_cases returned : r' = .returned
    · subst returned
      refine .inl (reaps m (.failed (.spawn i reason)) ?_)
      rw [hcreation]
      rcases m.remaining with less | ⟨rfl, rfl⟩ <;>
        simp only [Creation.remaining, Reaping.remaining] at * <;> omega
    · rw [afterDrop_of_ne returned]
      rcases m.remaining with less | ⟨rfl, rfl⟩
      · refine .inl (reaps m (.dropping i reason r') ?_)
        rw [hcreation]
        simp only [Creation.remaining]
        omega
      · exact .inr (.inl (by rw [← hcreation]))
  | @sleep i hcreation hs => exact .inr (.inr ⟨i, hcreation, hs, rfl⟩)
  | @started i hcreation hs =>
    refine .inl (goes size_eq ?_)
    show _ + 2 * p.toil + p.idle.length + p.handles.length < _
    have bound := remaining_awaitFrom p.size i
    rw [hcreation]
    omega
  | announce hcreation =>
    refine .inl (goes size_eq ?_)
    show _ + 2 * p.toil + p.idle.length + p.handles.length < _
    rw [hcreation]
    simp only [Creation.remaining]
    omega

/-- A worker without a job gets on, or goes to sleep at its slot. -/
theorem WorkerMove.remaining {i : Nat} {w : Worker} (m : WorkerMove p log i w q)
    (hw : p.workers[i]? = some w) (unused : w.IsUnused p.control.isStopping) :
    q.remaining < p.remaining ∨ w.phase = .checking ∧ p.control.isStopping = false ∧
      q = p.putWorker i { w with phase := .waiting } := by
  obtain ⟨empty, place⟩ := unused
  -- the worker goes on to stand as `x`, with `idle` in the queue
  have goes {s : Pool} (x : Worker) (hworkers : s.workers = p.workers.set i x)
      (hhandles : s.handles = p.handles)
      (hcreation : s.creation.remaining p.size = p.creation.remaining p.size)
      (less : 2 * x.phase.remaining + s.idle.length < 2 * w.phase.remaining + p.idle.length) :
      s.remaining < p.remaining := by
    have toil := toil_put hw x
    have same : s.toil = (p.putWorker i x).toil := by simp only [Pool.toil, hworkers, putWorker]
    refine remaining_lt (by rw [size, hworkers, List.length_set]; rfl) ?_
    rw [hcreation, hhandles, same]
    omega
  cases m with
  | attach hphase =>
    refine .inl (goes _ rfl rfl (by simp) ?_)
    rw [hphase, List.length_append, List.length_singleton]
    simp only [Worker.Phase.remaining]
    omega
  | announce hphase | leave hphase | report hphase =>
    refine .inl (goes _ rfl rfl rfl ?_)
    simp [hphase, Worker.Phase.remaining, putWorker]
  | detach hphase =>
    refine .inl (goes _ rfl rfl (by simp) ?_)
    simp [hphase, Worker.Phase.remaining, putWorker]
  | wait hphase hcell hstop => exact .inr ⟨hphase, hstop, rfl⟩
  | take hphase hcell =>
    rw [empty] at hcell
    cases hcell
  | start hphase | work hphase | rest hphase =>
    rw [hphase] at place
    exact place.elim

end Pool

end Interlock
