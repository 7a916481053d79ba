import Interlock.Duration

/-!
# Waiting on a condition

A thread that holds a mutex waits until a predicate of the guarded state holds.  Every wait lets
go of the mutex, so that other threads may change the state, and takes it again.

What happens during the waits is a list of events, one for each.  When the list is used up
nothing happens any more: a wait without a timeout never returns, and one with a timeout runs out.
The state is of any type, and a predicate may change it.
-/

namespace Interlock.Condition

/-- A call that reaches the condition variable. -/
inductive Call where
  | wait
  | waitUntil
  | waitFor (timeout : Duration)
  | notifyOne
  | notifyAll
  deriving DecidableEq, Repr

/-- The call in a record. -/
def Call.render : Call → String
  | .wait => "wait"
  | .waitUntil => "wait_until"
  | .waitFor timeout => "wait_for " ++ timeout.seconds
  | .notifyOne => "notify_one"
  | .notifyAll => "notify_all"

/-- What happens during one wait. -/
structure Event (σ : Type) where
  /-- What other threads do to the state, and the calls that they make. -/
  act : σ → σ × List Call
  /-- Whether the wait ends because its time ran out. -/
  timedOut : Bool := false

/-- Why waiting is over. -/
inductive Verdict where
  /-- The predicate holds. -/
  | met
  /-- Time ran out, and the predicate does not hold. -/
  | expired
  /-- Nobody ends the wait. -/
  | blocked
  deriving DecidableEq, Repr, Inhabited

/-- The end of waiting: the state, the events that were not needed, and the calls in order. -/
structure Waited (σ : Type) where
  state : σ
  left : List (Event σ)
  calls : List Call
  verdict : Verdict

/-- The same end, with earlier calls in front. -/
def Waited.after {σ : Type} (calls : List Call) (w : Waited σ) : Waited σ :=
  { w with calls := calls ++ w.calls }

/-- How often was waited. -/
def Waited.waits {σ : Type} (w : Waited σ) : Nat :=
  w.calls.countP fun
    | .wait => true
    | .waitUntil => true
    | .waitFor _ => true
    | _ => false

section

variable {σ : Type}

/-- Waits as long as `keep` holds. -/
def waitWhile (keep : σ → Bool × σ) : List (Event σ) → σ → Waited σ
  | [], s =>
    match keep s with
    | (false, s) => ⟨s, [], [], .met⟩
    | (true, s) => ⟨s, [], [.wait], .blocked⟩
  | e :: events, s =>
    match keep s with
    | (false, s) => ⟨s, e :: events, [], .met⟩
    | (true, s) =>
      let (s, calls) := e.act s
      (waitWhile keep events s).after (.wait :: calls)

/-- The predicate turned around. -/
def negated (ready : σ → Bool × σ) (s : σ) : Bool × σ :=
  let (r, s) := ready s
  (!r, s)

/-- Waits until `ready` holds. -/
def lockWhen (ready : σ → Bool × σ) (events : List (Event σ)) (s : σ) : Waited σ :=
  waitWhile (negated ready) events s

/-- The end of waiting when time has run out: the predicate decides. -/
def runOut (ready : σ → Bool × σ) (events : List (Event σ)) (calls : List Call) (s : σ) :
    Waited σ :=
  match ready s with
  | (true, s) => ⟨s, events, calls, .met⟩
  | (false, s) => ⟨s, events, calls, .expired⟩

/-- Waits until `ready` holds or a deadline passes. -/
def waitUntil (ready : σ → Bool × σ) : List (Event σ) → σ → Waited σ
  | [], s =>
    match ready s with
    | (true, s) => ⟨s, [], [], .met⟩
    | (false, s) => runOut ready [] [.waitUntil] s
  | e :: events, s =>
    match ready s with
    | (true, s) => ⟨s, e :: events, [], .met⟩
    | (false, s) =>
      let (s, calls) := e.act s
      if e.timedOut then runOut ready events (.waitUntil :: calls) s
      else (waitUntil ready events s).after (.waitUntil :: calls)

/-- Waits until `ready` holds, for at most `timeout` from `now` on.  A deadline that the clock
cannot represent is none. -/
def lockWhenTimeout (now : Instant) (timeout : Duration) (ready : σ → Bool × σ)
    (events : List (Event σ)) (s : σ) : Waited σ :=
  match ready s with
  | (true, s) => ⟨s, events, [], .met⟩
  | (false, s) =>
    match now.after? timeout with
    | none => lockWhen ready events s
    | some _ => waitUntil ready events s

/-- Waits once. -/
def wait (events : List (Event σ)) (s : σ) : Waited σ :=
  match events with
  | [] => ⟨s, [], [.wait], .blocked⟩
  | e :: events =>
    let (s, calls) := e.act s
    ⟨s, events, .wait :: calls, .met⟩

/-- Waits once, for at most `timeout`. -/
def waitTimeout (timeout : Duration) (events : List (Event σ)) (s : σ) : Waited σ :=
  match events with
  | [] => ⟨s, [], [.waitFor timeout], .expired⟩
  | e :: events =>
    let (s, calls) := e.act s
    ⟨s, events, .waitFor timeout :: calls, if e.timedOut then .expired else .met⟩

end

end Interlock.Condition
