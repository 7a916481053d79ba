import Interlock.Exclusive.Session
import Interlock.Mutex.Script
import Mathlib.Tactic.Common

/-!
# Acquisitions and releases of the exclusive lock balance

An operation on the lock may call its mutex many times: tries while the mutex is in other hands,
calls repeated after a failure that may pass, and at last a blocking call.  Whatever codes the
mutex answers, an acquisition that is reported made exactly one call that gave it the mutex, and
that call was its last; one that is not reported made none (`Session.accounts_perform`).  The same
holds of releases, so that over a run the mutex is taken and given back as often as the replies
say (`Session.balance_run`).
-/

namespace Interlock

namespace Mutex

/-- Whether a call locked the mutex. -/
def Call.hasLocked (c : Call) : Bool := (c.op == .tryLock || c.op == .lock) && c.code == 0

/-- Whether a call unlocked the mutex. -/
def Call.hasUnlocked (c : Call) : Bool := c.op == .unlock && c.code == 0

/-- Only the code 0 means that a call did what it was made for: a try has a code of its own for a
held mutex, and that is not 0. -/
theorem Op.read_eq_done_iff {op : Op} {code : Int} : op.read code = .done ↔ code = 0 := by
  unfold Op.read PrimitiveError.check
  by_cases zero : code = 0
  · subst zero
    simp [Errno.ebusy]
  · by_cases held : op = .tryLock ∧ code = Errno.ebusy
    · simp [held, Errno.ebusy]
    · by_cases misuse : PrimitiveError.isMisuseCode code = true <;> simp [held, zero, misuse]

end Mutex

namespace Exclusive

open Mutex (Call Op)

/-! ## The calls of one operation -/

/-- What calls one after the other, latest first, say about an operation: it has ended well
exactly when the last one succeeded, and before that all failed. -/
def Answered (made : List Call) : Bool → Prop
  | true => ∃ c earlier, made = c :: earlier ∧ c.code = 0 ∧ ∀ e ∈ earlier, e.code ≠ 0
  | false => ∀ c ∈ made, c.code ≠ 0

/-- Calls that failed before do not change how an operation ended. -/
theorem Answered.append {later earlier : List Call} {well : Bool} (h : Answered later well)
    (failed : Answered earlier false) : Answered (later ++ earlier) well := by
  cases well with
  | false =>
    intro c hc
    exact (List.mem_append.1 hc).elim (h c) (failed c)
  | true =>
    obtain ⟨c, rest, rfl, hcode, hrest⟩ := h
    refine ⟨c, rest ++ earlier, rfl, hcode, ?_⟩
    intro e he
    exact (List.mem_append.1 he).elim (hrest e) (failed e)

/-- Whether an attempt got what it was made for. -/
def Attempt.isDone : Attempt → Bool
  | .done => true
  | _ => false

namespace State

variable {σ : Type} {b : Mutex.Backend σ} {s t u : State σ}

/-- An operation that leads from `s` to `t` made calls of the kinds `ops`, and it ended well
exactly when the last of them, and no other, succeeded. -/
def Made (ops : Op → Prop) (well : Bool) (s t : State σ) : Prop :=
  ∃ made, t.wire.calls = made ++ s.wire.calls ∧ (∀ c ∈ made, ops c.op) ∧ Answered made well

theorem Made.refl {ops : Op → Prop} (h : t.wire.calls = s.wire.calls) : Made ops false s t :=
  ⟨[], h, by simp, by simp [Answered]⟩

/-- Calls that were not granted come before others. -/
theorem Made.trans {ops : Op → Prop} {well : Bool} (h : Made ops false s t)
    (h' : Made ops well t u) : Made ops well s u := by
  obtain ⟨earlier, hearlier, hops, failed⟩ := h
  obtain ⟨later, hlater, hops', ended⟩ := h'
  refine ⟨later ++ earlier, by rw [hlater, hearlier, List.append_assoc], ?_, ended.append failed⟩
  intro c hc
  exact (List.mem_append.1 hc).elim (hops' c) (hops c)

theorem Made.mono {ops ops' : Op → Prop} {well : Bool} (h : Made ops well s t)
    (wider : ∀ op, ops op → ops' op) : Made ops' well s t := by
  obtain ⟨made, hmade, hops, ended⟩ := h
  exact ⟨made, hmade, fun c hc => wider _ (hops c hc), ended⟩

theorem Made.congr {ops : Op → Prop} {well : Bool} {s' t' : State σ} (h : Made ops well s t)
    (hs : s'.wire.calls = s.wire.calls) (ht : t'.wire.calls = t.wire.calls) :
    Made ops well s' t' := by
  obtain ⟨made, hmade, h⟩ := h
  exact ⟨made, by rw [ht, hs, hmade], h⟩

/-- A call is answered well exactly when its code is 0; a blocking call that does not return is
none. -/
theorem made_ask {op : Op} {answer : Mutex.Answer} (h : s.ask b op = (answer, t)) :
    Made (· = op) (decide (answer = .done)) s t := by
  by_cases blocked : op = .lock ∧ b.blocks s.wire.world
  · simp only [ask, Mutex.Wire.ask, blocked, and_self, ↓reduceIte, Prod.mk.injEq] at h
    obtain ⟨rfl, rfl⟩ := h
    exact Made.refl rfl
  · simp only [ask, Mutex.Wire.ask, blocked, ↓reduceIte, Prod.mk.injEq] at h
    obtain ⟨rfl, rfl⟩ := h
    refine ⟨[⟨op, (b.answer op s.wire.world).1⟩], rfl, by simp, ?_⟩
    by_cases zero : (b.answer op s.wire.world).1 = 0 <;>
      simp [Mutex.Wire.call, Op.read_eq_done_iff, zero, Answered]

/-- A call that is repeated makes calls of its own kind, of which at most the last is granted. -/
theorem made_persist (b : Mutex.Backend σ) (op : Op) (left : Nat) (s : State σ) :
    Made (· = op) (s.persist b op left).1.isDone s (s.persist b op left).2 := by
  fun_induction persist b op left s with
  | case1 left s t asked => exact made_ask asked
  | case2 left s t asked => exact made_ask asked
  | case3 s e t asked => exact (made_ask asked).congr rfl rfl
  | case4 s e t asked _ left ih => exact ((made_ask asked).congr rfl rfl).trans ih
  | case5 left s e t asked => exact (made_ask asked).congr rfl rfl

/-- Spins are tries, of which at most the last is granted. -/
theorem made_spinOn (b : Mutex.Backend σ) (spins left : Nat) (s : State σ) :
    Made (· = .tryLock) (s.spinOn b spins left).1.isDone s (s.spinOn b spins left).2 := by
  fun_induction spinOn b spins left s with
  | case1 => exact Made.refl rfl
  | case2 left s spins t asked => exact (made_ask asked).congr rfl rfl
  | case3 left s spins t asked ih => exact ((made_ask asked).congr rfl rfl).trans ih
  | case4 s spins e t asked => exact (made_ask asked).congr rfl rfl
  | case5 s spins e t asked _ left ih => exact ((made_ask asked).congr rfl rfl).trans ih
  | case6 left s spins e t asked => exact (made_ask asked).congr rfl rfl

/-- The kinds of call that can give a caller the mutex. -/
def Acquiring (op : Op) : Prop := op = .tryLock ∨ op = .lock

/-- An acquisition goes through its three phases until one of them ends it. -/
theorem made_acquire (b : Mutex.Backend σ) (s : State σ) :
    Made Acquiring (s.acquire b).1.isDone s (s.acquire b).2 := by
  have tried : Made Acquiring _ _ _ :=
    (made_persist b .tryLock Limits.spuriousRetries s).mono fun _ => .inl
  fun_cases acquire b s with
  | case1 left t first left' u second =>
    have spun : Made Acquiring _ _ _ :=
      (made_spinOn b t.lock.spinLimit left t.countBusy.noteBusy).mono fun _ => .inl
    rw [first] at tried
    rw [second] at spun
    have awaited : Made Acquiring _ _ _ := (made_persist b .lock left' u).mono fun _ => .inr
    exact (tried.trans (spun.congr rfl rfl)).trans awaited
  | case2 left t first =>
    have spun : Made Acquiring _ _ _ :=
      (made_spinOn b t.lock.spinLimit left t.countBusy.noteBusy).mono fun _ => .inl
    rw [first] at tried
    exact tried.trans (spun.congr rfl rfl)
  | case3 => exact tried

/-- An attempt makes calls that acquire, and is granted exactly if it says so. -/
theorem made_tryAcquire (b : Mutex.Backend σ) (s : State σ) :
    Made Acquiring (decide ((s.tryAcquire b).1 = .ok true)) s (s.tryAcquire b).2 := by
  have tried : Made Acquiring _ _ _ :=
    (made_persist b .tryLock Limits.spuriousRetries s).mono fun _ => .inl
  fun_cases tryAcquire b s with
  | case1 t ended =>
    rw [ended] at tried
    exact tried
  | case2 left t ended =>
    rw [ended] at tried
    exact tried.congr rfl rfl
  | case3 f t ended =>
    rw [ended] at tried
    exact tried

/-- Only a try can find the mutex in other hands, and only a blocking call can wait. -/
theorem persist_ne_held {op : Op} (notTry : op ≠ .tryLock)
    (returns : op = .lock → ∀ world, b.blocks world = false) (left : Nat) (s : State σ) (n : Nat) :
    (s.persist b op left).1 ≠ .held n := by
  fun_induction persist b op left s with
  | case1 | case3 | case5 => simp [fail]
  | case4 _ _ _ _ _ _ ih => exact ih
  | case2 left s t asked =>
    exfalso
    have unblocked : ¬ (op = .lock ∧ b.blocks s.wire.world = true) := fun h => by
      simp [returns h.1] at h
    simp only [ask, Mutex.Wire.ask, unblocked, ↓reduceIte, Prod.mk.injEq, Op.read, notTry,
      false_and] at asked
    split at asked <;> simp at asked

/-- An acquisition is left waiting only by a blocking call. -/
theorem acquire_ne_held (returns : ∀ world, b.blocks world = false) (s : State σ) (n : Nat) :
    (s.acquire b).1 ≠ .held n := by
  fun_cases acquire b s with
  | case1 left t first left' u second =>
    exact persist_ne_held (by simp) (fun _ => returns) left' u n
  | case2 left t first unheld => exact fun h => unheld n _ (Prod.ext h rfl)
  | case3 unheld => exact fun h => unheld n _ (Prod.ext h rfl)

/-- A release makes calls to unlock, and is granted exactly if it says so. -/
theorem made_release (b : Mutex.Backend σ) (s : State σ) :
    Made (· = .unlock) (decide ((s.release b).1 = .ok ())) s (s.release b).2 := by
  have asked := made_persist b .unlock Limits.spuriousRetries s
  have unheld (n : Nat) : (s.persist b .unlock Limits.spuriousRetries).1 ≠ .held n :=
    persist_ne_held (by simp) (by simp) Limits.spuriousRetries s n
  fun_cases release b s with
  | case1 t ended =>
    rw [ended] at asked
    exact asked
  | case2 left t ended =>
    rw [ended] at unheld
    exact absurd rfl (unheld left)
  | case3 f t ended =>
    rw [ended] at asked
    exact asked

end State

/-! ## The calls of one step -/

/-- Calls, latest first, of which the last one has a property and no other. -/
def EndsWith (p : Call → Bool) (made : List Call) : Prop :=
  ∃ c earlier, made = c :: earlier ∧ p c = true ∧ ∀ e ∈ earlier, p e = false

/-- What a step says about the lock. -/
inductive Verdict where
  /-- The caller has acquired the lock. -/
  | acquired
  /-- The caller has asked for the lock and not acquired it: the lock was held, or the step
  unwound. -/
  | denied
  /-- The caller waits in a call that has not returned. -/
  | waiting
  /-- The caller has released the lock. -/
  | released
  /-- The caller wanted to release the lock, and the step unwound. -/
  | kept
  /-- The step was about something else. -/
  | idle
  deriving DecidableEq, Repr

/-- Whether a step acquires the lock or releases it, but not both. -/
def Step.isPlain {α : Type} : Step α → Bool
  | .withLock _ => false
  | .guardScope _ => false
  | .tryGuardScope => false
  | _ => true

/-- The verdict of a step by its reply, where so many guards were kept before it: dropping a guard
when there is none releases nothing. -/
def Step.verdict {α : Type} (guards : Nat) : Step α → Reply α → Verdict
  | .lock, .flag true => .acquired
  | .lock, .blocked => .waiting
  | .lock, _ => .denied
  | .tryLock, .flag true => .acquired
  | .tryLock, _ => .denied
  | .guard, .guards _ => .acquired
  | .guard, .blocked => .waiting
  | .guard, _ => .denied
  | .tryGuard, .guards _ => .acquired
  | .tryGuard, _ => .denied
  | .unlock, .nothing => .released
  | .unlock, _ => .kept
  | .dropGuard, .guards _ => if guards = 0 then .idle else .released
  | .dropGuard, _ => .kept
  | _, _ => .idle

/-- What a verdict says about the calls that the step made, latest first. -/
def Verdict.Accounts : Verdict → List Call → Prop
  | .acquired, made => EndsWith Call.hasLocked made ∧ ∀ c ∈ made, c.hasUnlocked = false
  | .released, made => EndsWith Call.hasUnlocked made ∧ ∀ c ∈ made, c.hasLocked = false
  | .idle, made => made = []
  | _, made => ∀ c ∈ made, c.hasLocked = false ∧ c.hasUnlocked = false

section Accounts

variable {σ : Type} {s t : State σ} {made : List Call} {p : Call → Bool}

theorem Answered.endsWith (h : Answered made true) (reads : ∀ c ∈ made, p c = (c.code == 0)) :
    EndsWith p made := by
  obtain ⟨c, earlier, rfl, hcode, hearlier⟩ := h
  refine ⟨c, earlier, rfl, by simpa [reads c] using hcode, fun e he => ?_⟩
  simpa [reads e (List.mem_cons_of_mem c he)] using hearlier e he

theorem Answered.none (h : Answered made false) (reads : ∀ c ∈ made, p c = (c.code == 0)) :
    ∀ c ∈ made, p c = false := by
  intro c hc
  simpa [reads c hc] using h c hc

theorem hasLocked_of_acquiring {c : Call} (h : State.Acquiring c.op) :
    c.hasLocked = (c.code == 0) ∧ c.hasUnlocked = false := by
  rcases h with h | h <;> simp [Call.hasLocked, Call.hasUnlocked, h]

theorem hasUnlocked_of_unlock {c : Call} (h : c.op = .unlock) :
    c.hasUnlocked = (c.code == 0) ∧ c.hasLocked = false := by
  simp [Call.hasLocked, Call.hasUnlocked, h]

/-- The calls of an acquisition bear out whether it was granted. -/
theorem State.Made.acquisition {well : Bool} (h : State.Made State.Acquiring well s t) :
    ∃ made, t.wire.calls = made ++ s.wire.calls ∧
      (if well then Verdict.acquired else .denied).Accounts made := by
  obtain ⟨made, hmade, hops, ended⟩ := h
  have reads := fun c hc => (hasLocked_of_acquiring (hops c hc)).1
  have others := fun c hc => (hasLocked_of_acquiring (hops c hc)).2
  refine ⟨made, hmade, ?_⟩
  cases well with
  | false => exact fun c hc => ⟨ended.none reads c hc, others c hc⟩
  | true => exact ⟨ended.endsWith reads, others⟩

/-- The calls of a release bear out whether it was granted. -/
theorem State.Made.release {well : Bool} (h : State.Made (· = .unlock) well s t) :
    ∃ made, t.wire.calls = made ++ s.wire.calls ∧
      (if well then Verdict.released else .kept).Accounts made := by
  obtain ⟨made, hmade, hops, ended⟩ := h
  have reads := fun c hc => (hasUnlocked_of_unlock (hops c hc)).1
  have others := fun c hc => (hasUnlocked_of_unlock (hops c hc)).2
  refine ⟨made, hmade, ?_⟩
  cases well with
  | false => exact fun c hc => ⟨others c hc, ended.none reads c hc⟩
  | true => exact ⟨ended.endsWith reads, others⟩

theorem countP_of_none (h : ∀ c ∈ made, p c = false) : made.countP p = 0 :=
  List.countP_eq_zero.2 (by simpa using h)

theorem EndsWith.countP_eq (h : EndsWith p made) : made.countP p = 1 := by
  obtain ⟨c, earlier, rfl, hc, hearlier⟩ := h
  rw [List.countP_cons_of_pos hc, countP_of_none hearlier]

/-- What the calls of a verdict lock and unlock is what it says. -/
theorem Verdict.Accounts.balance {v : Verdict} (h : v.Accounts made) :
    (made.countP Call.hasLocked : Int) - made.countP Call.hasUnlocked =
      [v].count .acquired - [v].count .released := by
  cases v with
  | acquired => simp [h.1.countP_eq, countP_of_none h.2]
  | released => simp [h.1.countP_eq, countP_of_none h.2]
  | idle => simp [show made = [] from h]
  | denied | waiting | kept =>
    simp [countP_of_none fun c hc => (h c hc).1, countP_of_none fun c hc => (h c hc).2]

end Accounts

namespace Session

variable {σ α : Type} {b : Mutex.Backend σ}

/-- The calls of the mutex so far, latest first. -/
def calls (s : Session σ) : List Call := s.state.wire.calls

/-- The calls of a step bear out what its reply says about the lock. -/
theorem accounts_perform (b : Mutex.Backend σ) (thread : Nat) (s : Session σ) {step : Step α}
    (plain : step.isPlain = true) :
    ∃ made, (s.perform b thread step).2.calls = made ++ s.calls ∧
      (step.verdict s.guards (s.perform b thread step).1).Accounts made := by
  have nothing : ∃ made, s.calls = made ++ s.calls ∧ Verdict.idle.Accounts made := ⟨[], rfl, rfl⟩
  cases step with
  | lock | guard =>
    have made := (State.made_acquire b s.state).acquisition
    simp only [perform]
    rcases ended : s.state.acquire b with ⟨attempt, t⟩
    rw [ended] at made
    cases attempt with
    | done => exact made
    | held left => exact made
    | failed f => exact made
  | tryLock | tryGuard =>
    have made := (State.made_tryAcquire b s.state).acquisition
    simp only [perform]
    rcases ended : s.state.tryAcquire b with ⟨r, t⟩
    rw [ended] at made
    rcases r with f | ⟨⟨⟩⟩ <;> exact made
  | unlock =>
    have made := (State.made_release b s.state).release
    simp only [perform]
    rcases ended : s.state.release b with ⟨r, t⟩
    rw [ended] at made
    rcases r with f | ⟨⟨⟩⟩ <;> exact made
  | dropGuard =>
    have made := (State.made_release b s.state).release
    obtain ⟨state, guards, waiting⟩ := s
    cases guards with
    | zero => exact nothing
    | succ guards =>
      simp only [perform] at made ⊢
      rcases ended : state.release b with ⟨r, t⟩
      rw [ended] at made
      rcases r with f | ⟨⟨⟩⟩ <;> exact made
  | setDebug on => exact nothing
  | clear => exact nothing
  | render => exact nothing
  | withLock | guardScope | tryGuardScope => cases plain

/-- A mutex that keeps no caller waiting leaves no step waiting. -/
theorem verdict_ne_waiting (returns : ∀ world, b.blocks world = false) (thread : Nat)
    (s : Session σ) (step : Step α) :
    step.verdict s.guards (s.perform b thread step).1 ≠ .waiting := by
  have unheld := State.acquire_ne_held returns s.state
  cases step with
  | lock | guard =>
    simp only [perform]
    rcases ended : s.state.acquire b with ⟨attempt, t⟩
    rw [ended] at unheld
    cases attempt with
    | held left => exact absurd rfl (unheld left)
    | done | failed => exact Verdict.noConfusion
  | tryLock | tryGuard | unlock | dropGuard =>
    simp only [Step.verdict]
    repeat' split
    all_goals simp_all
  | withLock | guardScope | tryGuardScope | setDebug | clear | render => simp [Step.verdict]

/-! ## Runs -/

/-- What the steps of a run say about the lock, first to last. -/
def verdicts (b : Mutex.Backend σ) (thread : Nat) : List (Step α) → Session σ → List Verdict
  | [], _ => []
  | step :: steps, s =>
    let (r, s') := s.perform b thread step
    step.verdict s.guards r :: verdicts b thread steps s'

/-- How much more often the mutex was taken than given back. -/
def balance (s : Session σ) : Int :=
  s.calls.countP Call.hasLocked - s.calls.countP Call.hasUnlocked

/-- A step changes the balance by what its verdict says. -/
theorem balance_perform (b : Mutex.Backend σ) (thread : Nat) (s : Session σ) {step : Step α}
    (plain : step.isPlain = true) :
    (s.perform b thread step).2.balance - s.balance =
      [step.verdict s.guards (s.perform b thread step).1].count .acquired -
        [step.verdict s.guards (s.perform b thread step).1].count .released := by
  obtain ⟨made, hmade, accounts⟩ := accounts_perform b thread s plain
  have added := accounts.balance
  simp only [balance, hmade, List.countP_append]
  omega

/-- A run changes the balance by what its verdicts say. -/
theorem balance_run (b : Mutex.Backend σ) (thread : Nat) (s : Session σ) {steps : List (Step α)}
    (plain : ∀ step ∈ steps, step.isPlain = true) :
    (s.run b thread steps).2.balance - s.balance =
      (s.verdicts b thread steps).count .acquired -
        (s.verdicts b thread steps).count .released := by
  induction steps generalizing s with
  | nil => simp [run, verdicts]
  | cons step steps ih =>
    have first := balance_perform b thread s (plain step List.mem_cons_self)
    have rest := ih (s.perform b thread step).2 fun step' h =>
      plain step' (List.mem_cons_of_mem step h)
    simp only [run, verdicts, List.count_cons, List.count_nil] at first rest ⊢
    omega

/-- Making a mutex neither locks nor unlocks it. -/
theorem quiet_createMutex {p : Mutex.Wire σ} (unused : p.calls = []) :
    ∀ c ∈ (createMutex b p).2.calls, c.hasLocked = false ∧ c.hasUnlocked = false := by
  unfold createMutex
  simp only [Mutex.Wire.call, unused]
  split
  · simp [Call.hasLocked, Call.hasUnlocked]
  · split <;> simp [Call.hasLocked, Call.hasUnlocked]

/-- A lock that was just made has not been acquired. -/
theorem balance_create {spinLimit : Nat} {p wire : Mutex.Wire σ} {lock : Exclusive}
    (unused : p.calls = []) (h : create b spinLimit p = (.ok lock, wire)) :
    ({ state := ⟨lock, wire⟩ } : Session σ).balance = 0 := by
  obtain rfl : (createMutex b p).2 = wire := by
    unfold create at h
    split at h
    · next made => simpa [made] using (Prod.mk.inj h).2
    · cases h
  have quiet := quiet_createMutex (b := b) unused
  simp [balance, calls, countP_of_none fun c hc => (quiet c hc).1,
    countP_of_none fun c hc => (quiet c hc).2]

end Session

/-- **Acquisitions and releases balance.**  Whatever the mutex answers, a step that reports the lock
as acquired made exactly one call that gave it the mutex, its last; a step that was denied made
none; a release that returns made exactly one call that gave the mutex back, its last, and one that
unwinds made none.  Over a run of a lock that was just made, the mutex was taken as much more often
than given back as the lock was reported acquired more often than released. -/
theorem Session.balanced {σ α : Type} (b : Mutex.Backend σ) (thread : Nat) :
    (∀ (s : Session σ) (step : Step α), step.isPlain = true →
      ∃ made, (s.perform b thread step).2.calls = made ++ s.calls ∧
        (step.verdict s.guards (s.perform b thread step).1).Accounts made) ∧
    (∀ (s : Session σ) (step : Step α), (∀ world, b.blocks world = false) →
      step.verdict s.guards (s.perform b thread step).1 ≠ .waiting) ∧
    ∀ (spinLimit : Nat) (p wire : Mutex.Wire σ) (lock : Exclusive) (steps : List (Step α)),
      p.calls = [] → create b spinLimit p = (.ok lock, wire) →
      (∀ step ∈ steps, step.isPlain = true) →
      let s : Session σ := { state := ⟨lock, wire⟩ }
      ((s.run b thread steps).2.calls.countP Call.hasLocked : Int) -
          (s.run b thread steps).2.calls.countP Call.hasUnlocked =
        (s.verdicts b thread steps).count .acquired -
          (s.verdicts b thread steps).count .released := by
  refine ⟨fun s step plain => accounts_perform b thread s plain,
    fun s step returns => verdict_ne_waiting returns thread s step, ?_⟩
  intro spinLimit p wire lock steps unused made plain
  have start := balance_create unused made
  have run := balance_run b thread { state := ⟨lock, wire⟩ } plain
  rw [start, Int.sub_zero] at run
  exact run

/-- A mutex whose first try fails for a reason that may pass, that is then in other hands for two
tries, and whose first release fails. -/
def stubborn : Mutex.Script where
  tryLock := ⟨[(11, 1), (16, 2), (0, 1), (16, 1)]⟩
  unlock := ⟨[(11, 1)]⟩

/-- The lock over a stubborn mutex is acquired, denied and released. -/
theorem balanced_of_stubborn :
    let b := Mutex.Script.backend
    let p : Mutex.Wire Mutex.Script := { world := stubborn }
    let steps : List (Step Unit) := [.lock, .tryGuard, .unlock]
    let s : Session Mutex.Script := { state := ⟨{ spinLimit := 2 }, (createMutex b p).2⟩ }
    s.verdicts b 0 steps = [.acquired, .denied, .released] ∧
      (∃ made, (s.perform b 0 (.lock : Step Unit)).2.calls = made ++ s.calls ∧
        Verdict.acquired.Accounts made) ∧
      ((Step.tryGuard : Step Unit).verdict s.guards (s.perform b 0 .tryGuard).1 ≠ .waiting) ∧
      ((s.run b 0 steps).2.calls.countP Call.hasLocked : Int) -
        (s.run b 0 steps).2.calls.countP Call.hasUnlocked = 1 - 1 := by
  have all := Session.balanced (α := Unit) Mutex.Script.backend 0
  refine ⟨rfl, all.1 _ .lock rfl, all.2.1 _ .tryGuard (fun _ => rfl), ?_⟩
  exact all.2.2 2 { world := stubborn } _ _ [.lock, .tryGuard, .unlock] rfl rfl (by decide)

end Exclusive

end Interlock
