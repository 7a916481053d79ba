import Interlock.Proofs.Pool.Patience
import Mathlib.Data.List.Nodup

/-!
# Who counts as backpressure

A submitter looks for a stop and then for an idle worker, and parks if it finds neither, round after
round.  Where it stands tells what it has seen so far (`SubmissionMove.saw`).  It is counted once,
after the first round if that was in vain, and no later round counts it again
(`SubmissionMove.cameShort`, `Tally.own`); it gives up its search exactly when it sees a stop
(`SubmissionMove.gives_up_iff`).  All this is the same however the parks end, which are between the
rounds (`Lot.pool_run`).
-/

namespace Interlock.Pool

/-! ## What submitters see -/

/-- What a submitter finds when it looks for a stop or for an idle worker. -/
inductive Sight where
  | running
  | stopping
  | worker (index : Nat)
  | nobody
  deriving DecidableEq, Repr

/-- What a submitter sees in its next step. -/
def Submission.sees? (p : Pool) : Submission → Option Sight
  | .arriving _ => some (if p.control.isStopping then .stopping else .running)
  | .popping _ =>
    match p.idle with
    | index :: _ => some (.worker index)
    | [] => some .nobody
  | _ => none

/-- The submission that an activity is. -/
def Activity.submission? : Activity → Option Submission
  | .submitting _ s => some s
  | _ => none

/-- Where a submission stands. -/
def submission? (p : Pool) (k : Nat) : Option Submission :=
  (p.calls[k]?).bind (·.activity.submission?)

/-- What a call sees in a step. -/
def sights (k : Nat) (p : Pool) (a : Action) (_ : Pool) : List Sight :=
  match a with
  | .call m => if m = k then ((p.submission? k).bind (·.sees? p)).toList else []
  | _ => []

/-- The call that changes the count in a step. -/
def raising (p : Pool) (a : Action) (q : Pool) : List Nat :=
  match a with
  | .call k => if q.backpressure = p.backpressure then [] else [k]
  | _ => []

/-- Whether a submitter is still looking for the index of a worker. -/
def Submission.isSeeking : Submission → Bool
  | .arriving _ | .popping _ | .counting | .parking => true
  | _ => false

/-- The call that is refused in a step in which it was looking for the index of a worker. -/
def givingUp (p : Pool) (a : Action) (q : Pool) : List Nat :=
  match a with
  | .call k =>
    if (p.submission? k).any (·.isSeeking) ∧ q.submission? k = some .refused then [k] else []
  | _ => []

/-- Rounds in which there was neither a stop nor an idle worker. -/
def inVain (n : Nat) : List Sight := (List.replicate n [.running, .nobody]).flatten

/-- What a submitter has seen when it stands here. -/
def Submission.Saw (l : List Sight) : Submission → Prop
  | .arriving waited => ∃ n, waited = decide (0 < n) ∧ l = inVain n
  | .popping waited => ∃ n, waited = decide (0 < n) ∧ l = inVain n ++ [.running]
  | .counting => l = inVain 1
  | .parking => ∃ n, 0 < n ∧ l = inVain n
  | .holding i | .nudging i _ | .accepted i => ∃ n, l = inVain n ++ [.running, .worker i]
  | .refused => ∃ n, l = inVain n ++ [.stopping] ∨ ∃ i, l = inVain n ++ [.running, .worker i]
  | .broken _ => False

/-- The first look for a stop found none, and the first look for an idle worker found nobody. -/
def CameShort (l : List Sight) : Prop := [.running, .nobody] <+: l

instance (l : List Sight) : Decidable (CameShort l) := inferInstanceAs (Decidable (_ <+: _))

variable {config : Config} {spawner : Nat → Except StartFailure (Option Payload.Inert)}
  {p q r : Pool} {log : Array (Thread × Log.Line)} {k job : Nat} {s s' : Submission}
  {l : List Sight}

theorem inVain_succ (n : Nat) : inVain (n + 1) = inVain n ++ [.running, .nobody] := by
  simp [inVain, List.replicate_succ']

@[simp] theorem not_cameShort_nil : ¬ CameShort [] := by simp [CameShort]

@[simp] theorem not_cameShort_singleton (a : Sight) : ¬ CameShort [a] := by simp [CameShort]

@[simp] theorem cameShort_cons_cons (a b : Sight) (l : List Sight) :
    CameShort (a :: b :: l) ↔ a = .running ∧ b = .nobody := by
  simp [CameShort, eq_comm]

/-- Whoever looked in vain once came short. -/
@[simp] theorem cameShort_inVain_append (n : Nat) (l : List Sight) :
    CameShort (inVain n ++ l) ↔ 0 < n ∨ CameShort l := by
  cases n with
  | zero => simp [inVain]
  | succ n => simp [inVain, List.replicate_succ]

@[simp] theorem cameShort_inVain (n : Nat) : CameShort (inVain n) ↔ 0 < n := by
  simpa using cameShort_inVain_append n []

/-- Whoever saw the stop is refused and never had a worker. -/
theorem Submission.Saw.of_stopping (h : s.Saw l) (stop : .stopping ∈ l) :
    s = .refused ∧ ∀ i, .worker i ∉ l := by
  have stopping (n : Nat) : .stopping ∉ inVain n := by simp [inVain]
  have worker (n i : Nat) : .worker i ∉ inVain n := by simp [inVain]
  cases s with
  | arriving | popping | parking =>
    obtain ⟨n, -, rfl⟩ := h
    simp [stopping] at stop
  | counting =>
    obtain rfl := h
    simp [stopping] at stop
  | holding | nudging | accepted =>
    obtain ⟨n, rfl⟩ := h
    simp [stopping] at stop
  | refused =>
    obtain ⟨n, rfl | ⟨i, rfl⟩⟩ := h
    · exact ⟨rfl, fun i => by simp [worker]⟩
    · simp [stopping] at stop
  | broken => exact h.elim

/-- A submitter that has an index, or has returned, looks for nothing any more. -/
theorem Submission.sees?_of_not_isSeeking (settled : s.isSeeking = false) :
    s.sees? p = none := by
  cases s <;> first | rfl | cases settled

theorem Submission.not_isSeeking_of_isOver (finished : (Activity.submitting job s).isOver = true) :
    s.isSeeking = false := by
  cases s <;> first | rfl | cases finished

/-! ## A step of a submission -/

/-- What a submission saw agrees with where it stands, step after step. -/
theorem SubmissionMove.saw (m : SubmissionMove p log job s s' q) (h : s.Saw l) :
    s'.Saw (l ++ (s.sees? p).toList) := by
  cases m with
  | refuse stops =>
    obtain ⟨n, -, rfl⟩ := h
    exact ⟨n, .inl (by simp [Submission.sees?, stops])⟩
  | enter runs =>
    obtain ⟨n, waited, rfl⟩ := h
    exact ⟨n, waited, by simp [Submission.sees?, runs]⟩
  | pop idle =>
    obtain ⟨n, -, rfl⟩ := h
    exact ⟨n, by simp [Submission.sees?, idle]⟩
  | full idle =>
    obtain ⟨n, rfl, rfl⟩ := h
    have seen : inVain n ++ [.running] ++ (Submission.sees? p (.popping (0 < n))).toList =
        inVain (n + 1) := by
      simp [Submission.sees?, idle, inVain_succ]
    rw [seen]
    cases n with
    | zero => rfl
    | succ n => exact ⟨n + 2, by omega, rfl⟩
  | count =>
    obtain rfl := h
    exact ⟨1, by decide, rfl⟩
  | retry =>
    obtain ⟨n, again, rfl⟩ := h
    exact ⟨n, by simpa using again, by simp [Submission.sees?]⟩
  | @giveBack i =>
    obtain ⟨n, rfl⟩ := h
    exact ⟨n, .inr ⟨i, by simp [Submission.sees?]⟩⟩
  | install =>
    obtain ⟨n, rfl⟩ := h
    exact ⟨n, by simp [Submission.sees?]⟩
  | nudge m =>
    obtain ⟨n, rfl⟩ := h
    cases m <;> exact ⟨n, by simp [Submission.sees?]⟩
  | stay finished =>
    rwa [Submission.sees?_of_not_isSeeking (Submission.not_isSeeking_of_isOver finished),
      Option.toList_none, List.append_nil]

/-- A submission comes to be counted by the step that counts it. -/
theorem SubmissionMove.cameShort (m : SubmissionMove p log job s s' q) (h : s.Saw l) :
    CameShort (l ++ (s.sees? p).toList) ∧ s' ≠ .counting ↔
      CameShort l ∧ s ≠ .counting ∨ s = .counting := by
  cases m with
  | refuse stops =>
    obtain ⟨n, -, rfl⟩ := h
    simp [Submission.sees?, stops]
  | enter runs =>
    obtain ⟨n, -, rfl⟩ := h
    simp [Submission.sees?, runs]
  | pop idle =>
    obtain ⟨n, -, rfl⟩ := h
    simp [Submission.sees?, idle]
  | full idle =>
    obtain ⟨n, rfl, rfl⟩ := h
    cases n <;> simp [Submission.sees?, idle]
  | count =>
    obtain rfl := h
    simp [Submission.sees?]
  | nudge m => cases m <;> simp [Submission.sees?, Submission.afterNudge]
  | retry | giveBack | install => simp [Submission.sees?]
  | stay finished =>
    have settled := Submission.not_isSeeking_of_isOver finished
    have counted : s ≠ .counting := by
      rintro rfl
      cases settled
    simp [Submission.sees?_of_not_isSeeking settled, counted]

/-- The counter moves when a submission counts itself, and only then. -/
theorem SubmissionMove.backpressure_eq (m : SubmissionMove p log job s s' q) :
    q.backpressure = if s = .counting then p.backpressure.increment else p.backpressure := by
  cases m with
  | nudge m => cases m <;> rfl
  | stay finished => cases s <;> first | rfl | cases finished
  | _ => rfl

/-- A submitter that looks for an index is refused exactly if it sees a stop. -/
theorem SubmissionMove.gives_up_iff (m : SubmissionMove p log job s s' q) :
    s.isSeeking ∧ s' = .refused ↔ s.sees? p = some .stopping := by
  cases m with
  | refuse stops => simp [Submission.sees?, Submission.isSeeking, stops]
  | enter runs => simp [Submission.sees?, Submission.isSeeking, runs]
  | pop idle => simp [Submission.sees?, Submission.isSeeking, idle]
  | @full waited idle => cases waited <;> simp [Submission.sees?, Submission.isSeeking, idle]
  | nudge m => cases m <;> simp [Submission.sees?, Submission.isSeeking]
  | stay finished =>
    have settled := Submission.not_isSeeking_of_isOver finished
    simp [Submission.sees?_of_not_isSeeking settled, settled]
  | _ => simp [Submission.sees?, Submission.isSeeking]

/-! ## A step of a pool -/

/-- A call is a submission at a place if it submits some job there. -/
theorem submission?_eq_some_iff : p.submission? k = some s ↔ ∃ job, p.Submits k job s := by
  simp only [submission?, Option.bind_eq_some_iff, Submits]
  constructor
  · rintro ⟨c, hc, hs⟩
    cases activity : c.activity with
    | submitting job s' =>
      rw [activity] at hs
      cases hs
      exact ⟨job, c, hc, activity⟩
    | reaping _ | nudging _ =>
      rw [activity] at hs
      cases hs
  · rintro ⟨job, c, hc, hs⟩
    exact ⟨c, hc, by rw [hs]; rfl⟩

theorem submission?_congr (same : q.calls = p.calls) : q.submission? = p.submission? := by
  unfold submission?
  rw [same]

theorem submission?_putCall_of_ne {m : Nat} {c : Call} (other : m ≠ k) :
    (p.putCall k c).submission? m = p.submission? m := by
  rw [submission?, getElem?_putCall_of_ne other, submission?]

theorem submission?_putCall {c c' : Call} (hc : p.calls[k]? = some c) :
    (p.putCall k c').submission? k = c'.activity.submission? := by
  rw [submission?, getElem?_putCall_self hc, Option.bind_some]

theorem submission?_notifyReaped : p.notifyReaped.submission? = p.submission? := by
  funext k
  simp only [submission?, getElem?_notifyReaped]
  cases p.calls[k]? with
  | none => rfl
  | some c =>
    obtain ⟨thread, activity⟩ := c
    cases activity with
    | reaping r => cases r <;> rfl
    | submitting _ _ | nudging _ => rfl

theorem submission?_addCall (thread : Thread) (activity : Activity) :
    (p.addCall thread activity).submission? k =
      if k = p.calls.size then activity.submission? else p.submission? k := by
  simp only [submission?, addCall, Array.getElem?_push]
  split <;> rfl

/-- Replacing a call that is no submission by another one changes nothing for the submissions. -/
theorem submission?_putCall_of_none {c c' : Call} (hc : p.calls[k]? = some c)
    (h : c.activity.submission? = none) (h' : c'.activity.submission? = none) :
    (p.putCall k c').submission? = p.submission? := by
  funext m
  by_cases own : m = k
  · subst own
    rw [submission?_putCall hc, h', submission?, hc, Option.bind_some, h]
  · exact submission?_putCall_of_ne own

/-- Tearing down leaves every submission where it stands. -/
theorem ReapingMove.submission?_eq {r r' : Reaping} (m : ReapingMove p log r r' q) :
    q.submission? = p.submission? := by
  cases m with
  | publish => exact submission?_notifyReaped
  | nudge m => exact submission?_congr m.calls_eq
  | _ => rfl

theorem WorkerMove.backpressure_eq {i : Nat} {w : Worker} (m : WorkerMove p log i w q) :
    q.backpressure = p.backpressure := by
  cases m <;> rfl

theorem NudgeMove.backpressure_eq {n n' : Nudge} (m : NudgeMove p n n' q) :
    q.backpressure = p.backpressure := by
  cases m <;> rfl

theorem ReapingMove.backpressure_eq {r r' : Reaping} (m : ReapingMove p log r r' q) :
    q.backpressure = p.backpressure := by
  cases m with
  | nudge m => exact m.backpressure_eq
  | _ => rfl

theorem CreationMove.backpressure_eq (m : CreationMove p log q) :
    q.backpressure = p.backpressure := by
  cases m with
  | rollBack _ m | drop _ m => exact m.backpressure_eq
  | _ => rfl

theorem CreationMove.submission?_eq (m : CreationMove p log q) :
    q.submission? = p.submission? := by
  cases m with
  | rollBack _ m | drop _ m => exact m.submission?_eq
  | _ => rfl

/-- A step, as far as the submissions are concerned. -/
inductive Turn (p : Pool) (a : Action) (q : Pool) : Prop
  /-- A submission moves on. -/
  | own {k job : Nat} {log : Array (Thread × Log.Line)} {s s' : Submission} {r : Pool}
      (ha : a = .call k) (m : SubmissionMove p log job s s' r) (before : p.submission? k = some s)
      (after : q.submission? k = some s') (count : q.backpressure = r.backpressure)
      (others : ∀ k', k' ≠ k → q.submission? k' = p.submission? k')
  /-- Something else happens; a submission may begin. -/
  | other (foreign : ∀ k, a = .call k → p.submission? k = none)
      (count : q.backpressure = p.backpressure)
      (same : ∀ k, q.submission? k = p.submission? k ∨
        p.submission? k = none ∧ q.submission? k = some (.arriving false))

theorem Turn.of_eq {a : Action} (foreign : ∀ k, a = .call k → p.submission? k = none)
    (count : q.backpressure = p.backpressure) (same : q.submission? = p.submission?) :
    Turn p a q :=
  .other foreign count fun k => .inl (congrFun same k)

/-- A move of anybody but a submission leaves the submissions and the counter alone. -/
theorem Move.turn {a : Action} (m : Move p log a q)
    (foreign : ∀ k, a = .call k → p.submission? k = none) : Turn p a q := by
  cases m with
  | stay | release | rouse => exact .of_eq foreign rfl rfl
  | worker hw m => exact .of_eq foreign m.backpressure_eq (submission?_congr m.calls_eq)
  | submission hc hs m =>
    have none := foreign _ rfl
    rw [submission?_eq_some_iff.2 ⟨_, _, hc, hs⟩] at none
    cases none
  | reaping hc hs m =>
    refine .of_eq foreign m.backpressure_eq ?_
    exact (submission?_putCall_of_none (m.own_call hc hs) (by rw [hs]; rfl) rfl).trans
      m.submission?_eq
  | nudging hc hs m =>
    refine .of_eq foreign m.backpressure_eq ?_
    exact (submission?_putCall_of_none (by rwa [m.calls_eq]) (by rw [hs]; rfl) rfl).trans
      (submission?_congr m.calls_eq)
  | creation m => exact .of_eq foreign m.backpressure_eq m.submission?_eq
  | @begin thread request _ =>
    have new (activity : Activity)
        (arrives : activity.submission? = none ∨ activity.submission? = some (.arriving false))
        (k : Nat) : (p.addCall thread activity).submission? k = p.submission? k ∨
          p.submission? k = none ∧
            (p.addCall thread activity).submission? k = some (.arriving false) := by
      rw [submission?_addCall]
      split
      · next here =>
        have unknown : p.submission? k = none := by simp [submission?, here]
        rw [unknown]
        exact arrives.imp id fun arrives => ⟨rfl, arrives⟩
      · exact .inl rfl
    cases request with
    | submit ending gated => exact .other foreign rfl (new _ (.inr rfl))
    | reap => exact .other foreign rfl (new _ (.inl rfl))
    | wake index => exact .other foreign rfl (new _ (.inl rfl))
  | rouseReapers => exact .of_eq foreign rfl submission?_notifyReaped

/-- Every action is a turn: of one submission, or of somebody else. -/
theorem Sound.turn (h : p.Sound) (a : Action) : Turn p a (p.step a) := by
  by_cases own : ∃ k job s, a = .call k ∧ p.Submits k job s
  · obtain ⟨k, job, s, rfl, hs⟩ := own
    obtain ⟨c, hc, hs'⟩ := id hs
    have m := (h.move_submission c.thread hs).2
    have there : (p.stepSubmission c.thread job s).2.calls[k]? = some c := by rwa [m.calls_eq]
    rw [step_submitting hc hs']
    refine .own rfl m (submission?_eq_some_iff.2 ⟨job, hs⟩) (submission?_putCall there) rfl
      fun k' other => ?_
    rw [submission?_putCall_of_ne other, submission?_congr m.calls_eq]
  · refine (h.move_step a).2.turn fun k ha => Option.eq_none_iff_forall_ne_some.2 fun s hs => ?_
    obtain ⟨job, hs⟩ := submission?_eq_some_iff.1 hs
    exact own ⟨k, job, s, ha, hs⟩

/-! ## The tally -/

theorem sights_own {a : Action} (ha : a = .call k) (before : p.submission? k = some s) :
    sights k p a q = (s.sees? p).toList := by
  subst ha
  simp [sights, before]

theorem sights_of_ne {a : Action} (other : a ≠ .call k) : sights k p a q = [] := by
  cases a with
  | call m => exact if_neg fun e => other (congrArg _ e)
  | _ => rfl

theorem sights_of_none {a : Action} (nobody : p.submission? k = none) : sights k p a q = [] := by
  cases a with
  | call m => simp [sights, nobody]
  | _ => rfl

/-- A submission raises the counter in the step in which it counts itself. -/
theorem SubmissionMove.raising_eq (m : SubmissionMove p log job s s' r)
    (count : q.backpressure = r.backpressure) :
    raising p (.call k) q = if s = .counting then [k] else [] := by
  have changes : p.backpressure.increment ≠ p.backpressure := by
    intro same
    have value := congrArg Counter.value same
    simp at value
  simp only [raising, count, m.backpressure_eq]
  by_cases counting : s = .counting
  · simp only [counting, if_true, if_neg changes]
  · simp only [counting, if_false, if_true]

theorem SubmissionMove.givingUp_eq (m : SubmissionMove p log job s s' r)
    (before : p.submission? k = some s) (after : q.submission? k = some s') :
    givingUp p (.call k) q = if s.sees? p = some .stopping then [k] else [] := by
  simp only [givingUp, before, after, Option.any_some, Option.some.injEq, m.gives_up_iff]

/-- What the submissions of a pool have seen, which of them have raised the count, and which have
given up. -/
structure Tally (p : Pool) (saw : Nat → List Sight) (raised gaveUp : List Nat) : Prop where
  course : ∀ k s, p.submission? k = some s → s.Saw (saw k)
  blank : ∀ k, p.submission? k = none → saw k = []
  once : raised.Nodup
  raised_iff : ∀ k, k ∈ raised ↔ CameShort (saw k) ∧ p.submission? k ≠ some .counting
  value : p.backpressure.value = UInt64.ofNat raised.length
  gaveUp_iff : ∀ k, k ∈ gaveUp ↔ .stopping ∈ saw k

section Tally

variable {saw : Nat → List Sight} {raised gaveUp : List Nat}

/-- A submission that moves on adds what it sees, and itself if it is counted or gives up. -/
theorem Tally.own (h : p.Tally saw raised gaveUp) (m : SubmissionMove p log job s s' r)
    (before : p.submission? k = some s) (after : q.submission? k = some s')
    (count : q.backpressure = r.backpressure)
    (others : ∀ k', k' ≠ k → q.submission? k' = p.submission? k') :
    q.Tally (fun k' => saw k' ++ sights k' p (.call k) q) (raised ++ raising p (.call k) q)
      (gaveUp ++ givingUp p (.call k) q) := by
  have here : sights k p (.call k) q = (s.sees? p).toList := sights_own rfl before
  have there {k' : Nat} (other : k' ≠ k) : saw k' ++ sights k' p (.call k) q = saw k' := by
    rw [sights_of_ne fun e => other (Action.call.inj e).symm, List.append_nil]
  rw [m.raising_eq count, m.givingUp_eq before after]
  constructor
  case course =>
    intro k' t standing
    by_cases own : k' = k
    · subst own
      obtain rfl : s' = t := Option.some.inj (after.symm.trans standing)
      rw [here]
      exact m.saw (h.course k' s before)
    · rw [there own]
      exact h.course k' t (others k' own ▸ standing)
  case blank =>
    intro k' absent
    have own : k' ≠ k := by
      rintro rfl
      rw [after] at absent
      cases absent
    rw [there own]
    exact h.blank k' (others k' own ▸ absent)
  case once =>
    split
    · next counting =>
      have fresh : k ∉ raised := fun k_mem => ((h.raised_iff k).1 k_mem).2 (counting ▸ before)
      rw [← List.concat_eq_append]
      exact List.Nodup.concat fresh h.once
    · rw [List.append_nil]
      exact h.once
  case raised_iff =>
    intro k'
    by_cases own : k' = k
    · subst own
      have counted := m.cameShort (h.course k' s before)
      rw [here, after, List.mem_append, h.raised_iff, before]
      simp only [ne_eq, Option.some.injEq] at counted ⊢
      rw [counted]
      split <;> simp [*]
    · rw [there own, others k' own, ← h.raised_iff]
      split <;> simp [own]
  case value =>
    rw [count, m.backpressure_eq]
    split
    · rw [Counter.value_increment, h.value, List.length_append, UInt64.ofNat_add]
      rfl
    · rw [h.value, List.append_nil]
  case gaveUp_iff =>
    intro k'
    by_cases own : k' = k
    · subst own
      rw [here, List.mem_append, List.mem_append, h.gaveUp_iff, Option.mem_toList]
      split <;> simp [*]
    · rw [there own, ← h.gaveUp_iff]
      split <;> simp [own]

/-- Anything else leaves the tally as it is; a submission that begins has seen nothing. -/
theorem Tally.turn {a : Action} (h : p.Tally saw raised gaveUp) (t : Turn p a q) :
    q.Tally (fun k => saw k ++ sights k p a q) (raised ++ raising p a q)
      (gaveUp ++ givingUp p a q) := by
  cases t with
  | own ha m before after count others =>
    subst ha
    exact h.own m before after count others
  | other foreign count same =>
    have blind (k : Nat) : sights k p a q = [] := by
      by_cases own : a = .call k
      · exact sights_of_none (foreign k own)
      · exact sights_of_ne own
    have still : raising p a q = [] := by
      cases a with
      | call m => exact if_pos count
      | _ => rfl
    have patient : givingUp p a q = [] := by
      cases a with
      | call m => simp [givingUp, foreign m rfl]
      | _ => rfl
    simp only [blind, still, patient, List.append_nil]
    constructor
    case course =>
      intro k s standing
      rcases same k with unmoved | ⟨absent, arrived⟩
      · exact h.course k s (unmoved ▸ standing)
      · obtain rfl : Submission.arriving false = s := Option.some.inj (arrived.symm.trans standing)
        exact ⟨0, rfl, h.blank k absent⟩
    case blank =>
      intro k absent
      rcases same k with unmoved | ⟨absent, -⟩
      · exact h.blank k (unmoved ▸ absent)
      · exact h.blank k absent
    case once => exact h.once
    case raised_iff =>
      intro k
      rw [h.raised_iff]
      rcases same k with unmoved | ⟨absent, arrived⟩
      · rw [unmoved]
      · rw [absent, arrived]
        simp
    case value => rw [count, h.value]
    case gaveUp_iff => exact h.gaveUp_iff

/-- Those that have raised the count are those that came short, but for the ones on their way to
the counter. -/
theorem Tally.length_raised (h : p.Tally saw raised gaveUp) :
    raised.length = (List.range p.calls.size).countP fun k =>
      CameShort (saw k) ∧ p.submission? k ≠ some .counting := by
  have known {k : Nat} (short : CameShort (saw k)) : k < p.calls.size := by
    by_contra unknown
    have absent : p.submission? k = none := by
      rw [submission?, Array.getElem?_eq_none (Nat.le_of_not_lt unknown), Option.bind_none]
    rw [h.blank k absent] at short
    exact not_cameShort_nil short
  have same : raised.Perm ((List.range p.calls.size).filter fun k =>
      CameShort (saw k) ∧ p.submission? k ≠ some .counting) := by
    refine (List.perm_ext_iff_of_nodup h.once (List.nodup_range.filter _)).2 fun k => ?_
    rw [h.raised_iff, List.mem_filter, List.mem_range, decide_eq_true_iff]
    exact ⟨fun counted => ⟨known counted.1, counted⟩, And.right⟩
  rw [same.length_eq, List.countP_eq_length_filter]

/-- The counter shows how many submissions came short, but for those that are about to count
themselves. -/
theorem Tally.value_eq (h : p.Tally saw raised gaveUp) :
    p.backpressure.value = UInt64.ofNat ((List.range p.calls.size).countP fun k =>
      CameShort (saw k) ∧ p.submission? k ≠ some .counting) := by
  rw [h.value, h.length_raised]

/-- When nobody is about to count himself, the counter shows who came short. -/
theorem Tally.value_of_settled (h : p.Tally saw raised gaveUp)
    (settled : ∀ k, p.submission? k ≠ some .counting) :
    p.backpressure.value = UInt64.ofNat ((List.range p.calls.size).countP fun k =>
      CameShort (saw k)) := by
  simp only [h.value_eq, settled, ne_eq, not_false_eq_true, and_true]

/-- Whoever has given up has been refused, and has not got hold of any index. -/
theorem Tally.of_gaveUp (h : p.Tally saw raised gaveUp) (left : k ∈ gaveUp) :
    p.submission? k = some .refused ∧ ∀ i, .worker i ∉ saw k := by
  have stop := (h.gaveUp_iff k).1 left
  cases standing : p.submission? k with
  | none =>
    rw [h.blank k standing] at stop
    cases stop
  | some s =>
    obtain ⟨rfl, none⟩ := (h.course k s standing).of_stopping stop
    exact ⟨rfl, none⟩

end Tally

/-- Nobody has seen anything in a pool that was not made yet. -/
theorem tally_create (config : Config)
    (spawner : Nat → Except StartFailure (Option Payload.Inert)) :
    (create config spawner).Tally (fun _ => []) [] [] := by
  have nobody (k : Nat) : (create config spawner).submission? k = none := by
    rcases create_cases config spawner with ⟨e, made⟩ | ⟨-, made⟩ <;> simp [made, submission?]
  have unused : (create config spawner).backpressure = {} := by
    rcases create_cases config spawner with ⟨e, made⟩ | ⟨-, made⟩ <;> rw [made]
  refine ⟨fun k s standing => ?_, fun _ _ => rfl, .nil, by simp, by rw [unused]; rfl, by simp⟩
  rw [nobody] at standing
  cases standing

/-- However the parks end, a pool is where the actions of its run bring it. -/
theorem Lot.pool_run (kernel : Parking.Kernel) (l : Lot) (turns : List (Parking.Futex × Action)) :
    (l.run kernel turns).pool = l.pool.run (turns.map Prod.snd) := by
  induction turns generalizing l with
  | nil => rfl
  | cons turn turns ih => exact (ih (l.act kernel turn)).trans (by rw [Lot.pool_act]; rfl)

/-- After any run the counter agrees with what the submissions saw. -/
theorem tally_run (config : Config) (spawner : Nat → Except StartFailure (Option Payload.Inert))
    (actions : List Action) :
    ((create config spawner).run actions).Tally
      (fun k => (create config spawner).seen (sights k) actions)
      ((create config spawner).seen raising actions)
      ((create config spawner).seen givingUp actions) := by
  induction actions using List.reverseRecOn with
  | nil => exact tally_create config spawner
  | append_singleton actions a ih =>
    have sound := (Reachable.start.run actions : Reachable config spawner _).sound
    simp only [run_concat, seen_concat]
    exact ih.turn (sound.turn a)

/-- What is told by the backpressure count of a pool, at the end of a run. -/
structure Backpressure (start : Pool) (actions : List Action) (p : Pool) : Prop where
  /-- A submission has made some rounds in vain, and something else at most in the last one. -/
  course : ∀ k s, p.submission? k = some s → s.Saw (start.seen (sights k) actions)
  /-- The count is the number of the submissions that came short in their first round; one that has
  just done so is not in it before its next step. -/
  value : p.backpressure.value = UInt64.ofNat ((List.range p.calls.size).countP fun k =>
    CameShort (start.seen (sights k) actions) ∧ p.submission? k ≠ some .counting)
  settled : (∀ k, p.submission? k ≠ some .counting) →
    p.backpressure.value = UInt64.ofNat ((List.range p.calls.size).countP fun k =>
      CameShort (start.seen (sights k) actions))
  /-- No submission raises the count twice. -/
  once : (start.seen raising actions).Nodup
  raised : ∀ k, k ∈ start.seen raising actions ↔
    CameShort (start.seen (sights k) actions) ∧ p.submission? k ≠ some .counting
  /-- A submission is refused in its search exactly if it sees a stop. -/
  gaveUp : ∀ k, k ∈ start.seen givingUp actions ↔ .stopping ∈ start.seen (sights k) actions
  emptyHanded : ∀ k ∈ start.seen givingUp actions,
    p.submission? k = some .refused ∧ ∀ i, .worker i ∉ start.seen (sights k) actions

/-- **The backpressure count is the number of the submissions that came short.**  On every run, the
count is the number of the calls that saw no stop at first and then found nobody idle; each of them
raises it once, however often it parks, however its parks end, and whoever gets the workers.  A call
that looks for an index is refused exactly if it sees a stop, and then it has got no index. -/
theorem backpressure_run (kernel : Parking.Kernel) (config : Config)
    (spawner : Nat → Except StartFailure (Option Payload.Inert)) (place : Parking.Futex.Solo)
    (turns : List (Parking.Futex × Action)) :
    let start := create config spawner
    Backpressure start (turns.map Prod.snd)
      (Lot.run kernel { pool := start, place } turns).pool := by
  intro start
  have tally := tally_run config spawner (turns.map Prod.snd)
  rw [Lot.pool_run]
  exact ⟨tally.course, tally.value_eq, tally.value_of_settled, tally.once, tally.raised_iff,
    tally.gaveUp_iff, fun k => tally.of_gaveUp⟩

/-- A submitter that finds nobody idle three times is counted once. -/
example :
    let start := create (lonely (.ofMillis 10)) steady
    let actions := crowding ++ List.replicate 6 (.call 1)
    start.seen (sights 1) actions = inVain 3 ∧ start.seen raising actions = [1] := by
  decide

end Interlock.Pool
