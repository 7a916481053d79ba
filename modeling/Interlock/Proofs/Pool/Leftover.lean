import Interlock.Proofs.Pool.Custody
import Interlock.Proofs.Pool.Execution

/-!
# What is left in the idle queue

The reaper empties the idle queue once, after the last worker was joined.  A submitter that took an
index before the stop may still have it in its hands then, and puts it back afterwards, since it
finds the pool stopping.  From the moment at which the reaper finds the queue empty, indices only
move between the queue and the hands of submitters (`Emptied.offered_perm`), so that in the end the
queue of a reaped pool holds what was in their hands at that moment (`leftover_run`).
-/

namespace Interlock.Pool

open scoped List

variable {config : Config} {spawner : Nat → Except StartFailure (Option Payload.Inert)}
  {p q : Pool} {log : Array (Thread × Log.Line)}

/-! ## Once the queue was found empty -/

/-- The reaper has found the idle queue empty. -/
def IsDrained (p : Pool) : Prop :=
  p.control.isReaped = true ∨ ∃ who joined, p.standing who = some (.marking joined)

/-- The pool stops, no worker goes on, and no reaper will take an index off the idle queue. -/
structure Emptied (p : Pool) : Prop where
  stopping : p.control.isStopping = true
  out : ∀ (i : Nat) (w : Worker), p.workers[i]? = some w → w.isOut = true
  unclaimed : ∀ who joined, p.standing who = some (.draining joined) → p.idle = []

theorem WorkerMove.isOut_eq_false {i : Nat} {w : Worker} (m : WorkerMove p log i w q) :
    w.isOut = false := by
  obtain ⟨x, -, born, -⟩ := m.frame
  refine Bool.eq_false_iff.2 fun out => ?_
  rcases Worker.isOut_iff.1 out with unborn | ⟨payload, ended⟩
  · exact born unborn
  · rw [m.ended?_eq_none] at ended
    cases ended

theorem Reachable.emptied_of_draining (h : Reachable config spawner p) {who : Party} {joined : Nat}
    (hr : p.standing who = some (.draining joined)) (none : p.idle = []) : p.Emptied where
  stopping := (h.sound.fits_of_standing hr).1.1
  out _ _ hw := h.isOut_of_joined (.inr ⟨who, _, hr, rfl⟩) hw
  unclaimed _ _ _ := none

theorem Reachable.emptied_of_drained (h : Reachable config spawner p) (hd : p.IsDrained) :
    p.Emptied := by
  have sound := h.sound
  rcases hd with reaped | ⟨who, joined, hr⟩
  · refine ⟨sound.roles.stops reaped, fun i w hw => h.isOut_of_joined (.inl reaped) hw, ?_⟩
    intro who joined hr
    have unreaped := (sound.fits_of_standing hr).1.2
    simp [reaped] at unreaped
  · refine ⟨(sound.fits_of_standing hr).1.1,
      fun i w hw => h.isOut_of_joined (.inr ⟨who, _, hr, rfl⟩) hw, ?_⟩
    intro other joined' hr'
    obtain rfl := sound.role_unique hr hr' rfl rfl
    rw [hr] at hr'
    cases hr'

/-! ## Indices are only passed on -/

theorem SubmissionMove.offered_perm {k job : Nat} {c : Call} {s s' : Submission}
    (m : SubmissionMove p log job s s' q) (hc : p.calls[k]? = some c)
    (hs : c.activity = .submitting job s) (stopping : p.control.isStopping = true) :
    (q.putCall k { c with activity := .submitting job s' }).offered ~ p.offered := by
  have unheld {s' : Submission} (held : (Activity.submitting job s).held? = none)
      (held' : (Activity.submitting job s').held? = none) :
      (p.putCall k { c with activity := .submitting job s' }).offered ~ p.offered :=
    offered_putCall_of_none hc (by rw [hs]; exact held) held'
  cases m with
  | @pop waited i idle front =>
    have moved := offered_putCall (p := { p with idle }) hc
      { c with activity := .submitting job (.holding i) }
    rw [hs] at moved
    have listed : p.offered = i :: { p with idle }.offered := by
      rw [offered, front]
      rfl
    exact moved.trans (.of_eq listed.symm)
  | @giveBack i =>
    have moved := offered_putCall (p := { p with idle := p.idle ++ [i] }) hc
      { c with activity := .submitting job .refused }
    rw [hs] at moved
    have back : (p.idle ++ [i]) ++ p.held ~ i :: p.offered := by
      rw [List.append_assoc]
      exact List.perm_middle
    exact (moved.trans back).cons_inv
  | install hw running => simp [stopping] at running
  | @nudge i n n' q m =>
    have moved : (q.putCall k { c with activity := .submitting job (.afterNudge i n') }).offered ~
        q.offered := by
      refine offered_putCall_of_none (by rwa [m.calls_eq]) (by rw [hs]; rfl) ?_
      cases n' <;> rfl
    exact moved.trans (.of_eq m.offered_eq)
  | @full waited => exact unheld rfl (by cases waited <;> rfl)
  | stay ended =>
    have held : (Activity.submitting job s).held? = none := by
      cases s with
      | holding => cases ended
      | _ => rfl
    exact unheld held held
  | refuse | enter | count | retry => exact unheld rfl rfl

theorem ReapingMove.offered_eq {r r' : Reaping} (m : ReapingMove p log r r' q)
    (unclaimed : ∀ joined, r = .draining joined → p.idle = []) : q.offered = p.offered := by
  cases m with
  | drain front => simp [unclaimed _ rfl] at front
  | nudge m => exact m.offered_eq
  | publish => exact congrArg (p.idle ++ ·) (held_notifyReaped p)
  | _ => rfl

theorem CreationMove.offered_eq (m : CreationMove p log q)
    (unclaimed : ∀ joined, p.creation.reaping? = some (.draining joined) → p.idle = []) :
    q.offered = p.offered := by
  cases m with
  | rollBack hcreation m | drop hcreation m =>
    refine m.offered_eq ?_
    rintro joined rfl
    exact unclaimed joined (by rw [hcreation]; rfl)
  | _ => rfl

theorem Emptied.offered_perm (h : p.Emptied) {a : Action} (m : Move p log a q) :
    q.offered ~ p.offered := by
  have same {s : Pool} {k : Nat} {c : Call} {activity : Activity} (hs : s.offered = p.offered)
      (hc : s.calls[k]? = some c) (held : c.activity.held? = none) (held' : activity.held? = none) :
      (s.putCall k { c with activity }).offered ~ p.offered :=
    (offered_putCall_of_none hc held held').trans (.of_eq hs)
  cases m with
  | stay | release | rouse => exact .refl _
  | worker hw m =>
    have running := m.isOut_eq_false
    simp [h.out _ _ hw] at running
  | submission hc hs m => exact m.offered_perm hc hs h.stopping
  | @reaping k c r r' s hc hs m =>
    refine same (m.offered_eq ?_) (m.own_call hc hs) (by rw [hs]; rfl) rfl
    rintro joined rfl
    exact h.unclaimed (.caller k) joined (standing_caller.2 ⟨c, hc, hs⟩)
  | nudging hc hs m => exact same m.offered_eq (by rwa [m.calls_eq]) (by rw [hs]; rfl) rfl
  | creation m => exact .of_eq (m.offered_eq fun joined hr => h.unclaimed .maker joined hr)
  | @begin thread request =>
    have added (activity : Activity) (unheld : activity.held? = none) :
        (p.addCall thread activity).offered = p.offered := by
      rw [offered, held, filterMap_addCall, unheld, Option.toList_none, List.append_nil]
      rfl
    cases request with
    | submit ending gated =>
      exact .of_eq (added (.submitting p.jobs.size (.arriving false)) rfl)
    | reap => exact .of_eq (added (.reaping .arriving) rfl)
    | wake index => exact .of_eq (added (.nudging (.looking index)) rfl)
  | rouseReapers => exact .of_eq (congrArg (p.idle ++ ·) (held_notifyReaped p))

/-! ## From then on -/

theorem ReapingMove.of_marking {r : Reaping} {joined : Nat}
    (m : ReapingMove p log r (.marking joined) q) :
    r = .marking joined ∨ r = .draining joined ∧ p.idle = [] := by
  generalize hr' : Reaping.marking joined = r' at m
  cases m with
  | drained none =>
    cases hr'
    exact .inr ⟨rfl, none⟩
  | stay => exact .inl rfl
  | @nudge i n n' q m =>
    cases n' with
    | done reached =>
      simp only [Reaping.afterNudge, Reaping.nudgeFrom] at hr'
      split at hr' <;> cases hr'
    | looking | notifying => cases hr'
  | broadcast =>
    simp only [Reaping.nudgeFrom] at hr'
    split at hr' <;> cases hr'
  | _ => cases hr'

/-- The reaper that is through with the idle queue has just found it empty. -/
theorem ReaperMove.of_drained {a : Action} (m : ReaperMove p a q) (hp : ¬ p.IsDrained)
    (hq : q.IsDrained) :
    ∃ who joined, a.party? = some who ∧ p.standing who = some (.draining joined) ∧
      p.idle = [] := by
  have unmarked {who : Party} {joined : Nat} : p.standing who ≠ some (.marking joined) :=
    fun hr => hp (.inr ⟨who, joined, hr⟩)
  have still {who : Party} {joined : Nat} (stays : Stays p q who)
      (hr : q.standing who = some (.marking joined)) : False := by
    obtain ⟨r, before, e | e⟩ := stays.before hr
    · exact unmarked (e ▸ before)
    · cases r with
      | marking => exact unmarked before
      | _ => cases e
  have quiet (hcontrol : q.control = p.control) (others : ∀ who, Stays p q who ∨
      p.standing who = none ∧ q.standing who = some .arriving) : False := by
    rcases hq with reaped | ⟨who, joined, hr⟩
    · exact hp (.inl (hcontrol ▸ reaped))
    · rcases others who with stays | ⟨-, arrives⟩
      · exact still stays hr
      · rw [arrives] at hr
        cases hr
  cases m with
  | quiet hu hcontrol hhandles hstoring others => exact (quiet hcontrol others).elim
  | spawn i w x hi hstoring hw hunborn hborn hworkers hcontrol hhandles others =>
    exact (quiet hcontrol fun who => .inl (others who)).elim
  | store i hi hstoring hworkers hcontrol hhandles others =>
    exact (quiet hcontrol fun who => .inl (others who)).elim
  | reap log who r r' s ha hr m hworkers hcontrol hhandles hstoring own gone others =>
    have unreaped : ¬ p.control.isReaped = true := fun reaped => hp (.inl reaped)
    rcases hq with reaped | ⟨other, joined, marks⟩
    · rw [hcontrol] at reaped
      rcases m.kind with ⟨-, -, -, same⟩ | ⟨-, -, -, same⟩ | ⟨_, _, _, -, -, -, -, same⟩ |
        ⟨joined, rfl, -⟩ | ⟨-, -, -, same, -⟩
      · exact absurd (same ▸ reaped) unreaped
      · exact absurd (same ▸ reaped) unreaped
      · exact absurd (same ▸ reaped) unreaped
      · exact absurd hr unmarked
      · exact absurd (same ▸ reaped) unreaped
    · by_cases mine : other = who
      · subst mine
        obtain rfl : r' = .marking joined := by
          rcases standing_of_own own gone marks with e | e
          · exact e.symm
          · cases e
        rcases m.of_marking with rfl | ⟨rfl, none⟩
        · exact absurd hr unmarked
        · exact ⟨other, joined, ha, hr, none⟩
      · exact (still (others other mine) marks).elim

theorem held_eq_nil (settled : ∀ k job s, p.Submits k job s →
    (Activity.submitting job s).isOver = true) : p.held = [] := by
  rw [List.eq_nil_iff_forall_not_mem]
  intro i hi
  obtain ⟨k, job, holds⟩ := mem_held.1 hi
  cases settled k job _ holds

/-- A run up to the step in which the reaper finds the idle queue empty, and what it makes of the
indices that submitters have in their hands then. -/
theorem offered_run (config : Config) (spawner : Nat → Except StartFailure (Option Payload.Inert))
    (actions : List Action) (drained : ((create config spawner).run actions).IsDrained) :
    ∃ before a after who joined, actions = before ++ a :: after ∧ a.party? = some who ∧
      ((create config spawner).run before).standing who = some (.draining joined) ∧
      ((create config spawner).run before).idle = [] ∧
      ((create config spawner).run actions).offered ~
        ((create config spawner).run before).held := by
  -- the run is taken apart at its end: either the queue was found empty before the last action, and
  -- that action kept the indices, or the last action is the one that found it empty
  induction actions using List.reverseRecOn with
  | nil =>
    exfalso
    have unreaped : ({} : Control).isReaped = false := by decide
    rcases drained with reaped | ⟨who, joined, hr⟩
    · rcases create_cases config spawner with ⟨e, made⟩ | ⟨-, made⟩ <;>
        simp [run, made, unreaped] at reaped
    · rcases create_cases config spawner with ⟨e, made⟩ | ⟨-, made⟩ <;>
        cases who <;> simp [run, made, standing, Creation.reaping?] at hr
  | append_singleton actions a ih =>
    have reached : Reachable config spawner ((create config spawner).run actions) :=
      Reachable.start.run actions
    rw [run_concat] at drained ⊢
    have move := (reached.sound.move_step a).2
    by_cases already : ((create config spawner).run actions).IsDrained
    · obtain ⟨before, b, after, who, joined, rfl, hb, hr, none, passed⟩ := ih already
      refine ⟨before, b, after ++ [a], who, joined, by simp, hb, hr, none, ?_⟩
      exact ((reached.emptied_of_drained already).offered_perm move).trans passed
    · obtain ⟨who, joined, ha, hr, none⟩ :=
        (reached.sound.reaperMove move).of_drained already drained
      refine ⟨actions, a, [], who, joined, rfl, ha, hr, none, ?_⟩
      refine ((reached.emptied_of_draining hr none).offered_perm move).trans (.of_eq ?_)
      rw [offered, none, List.nil_append]

/-- **What is left in the idle queue.**  When the workers of a pool have been joined and no
submission is in progress, the idle queue holds exactly the indices that submitters had in their
hands when the reaper found the queue empty.  It is empty if nobody was overtaken like that, and
whatever an overtaken submitter puts back stays there. -/
theorem leftover_run (config : Config) (spawner : Nat → Except StartFailure (Option Payload.Inert))
    (actions : List Action) (reaped : ((create config spawner).run actions).control.isReaped = true)
    (settled : ∀ k job s, ((create config spawner).run actions).Submits k job s →
      (Activity.submitting job s).isOver = true) :
    ∃ before a after who joined, actions = before ++ a :: after ∧ a.party? = some who ∧
      ((create config spawner).run before).standing who = some (.draining joined) ∧
      ((create config spawner).run before).idle = [] ∧
      ((create config spawner).run actions).idle ~ ((create config spawner).run before).held := by
  obtain ⟨before, a, after, who, joined, split, ha, hr, none, passed⟩ :=
    offered_run config spawner actions (.inl reaped)
  rw [offered, held_eq_nil settled, List.append_nil] at passed
  exact ⟨before, a, after, who, joined, split, ha, hr, none, passed⟩

/-- A submitter has taken worker 0 off the idle queue when a reaper comes, joins both workers,
empties the queue and returns.  Then the submitter goes on. -/
def overtakenSubmitter : List Action :=
  making ++ submitting 0 2 ++ reaping 1 2 ++ List.replicate 4 (.worker 0) ++
    List.replicate 4 (.worker 1) ++ List.replicate 15 (.call 1) ++ [.call 0]

theorem isOver_overtakenSubmitter (k job : Nat) (s : Submission)
    (h : ((create pair steady).run overtakenSubmitter).Submits k job s) :
    (Activity.submitting job s).isOver = true := by
  obtain ⟨c, hc, hs⟩ := h
  have all :
      ((create pair steady).run overtakenSubmitter).calls.all (·.activity.isOver) = true := by
    decide +kernel
  rw [Array.all_eq_true_iff_forall_mem] at all
  have ended := all c (Array.mem_of_getElem? hc)
  rwa [hs] at ended

/-- The worker that the submitter puts back is the one that is left. -/
theorem leftover_of_overtakenSubmitter :
    let p := (create pair steady).run overtakenSubmitter
    p.control.isReaped = true ∧ p.idle.length = 1 ∧
      ∃ before a after who joined, overtakenSubmitter = before ++ a :: after ∧
        a.party? = some who ∧
        ((create pair steady).run before).standing who = some (.draining joined) ∧
        ((create pair steady).run before).idle = [] ∧
        p.idle ~ ((create pair steady).run before).held :=
  ⟨by decide +kernel, by decide +kernel,
    leftover_run pair steady overtakenSubmitter (by decide +kernel) isOver_overtakenSubmitter⟩

/-- **The idle queue of a reaped pool need not be empty.**  The workers are joined, no call is in
progress, and one index is left. -/
theorem exists_leftover :
    ((create pair steady).run overtakenSubmitter).control.isReaped = true ∧
      ((create pair steady).run overtakenSubmitter).calls.map (·.activity) =
        #[.submitting 0 .refused, .reaping .returned] ∧
      ((create pair steady).run overtakenSubmitter).idle = [0] := by
  decide +kernel

end Interlock.Pool
