import Interlock.Proofs.Exclusive.Balance

/-!
# Code bracketed by a lock

Code that runs under a lock stands between an acquisition and a release, and both locks promise the
same about it, whatever the primitive below answers.  `Locking` is what the promise talks about: the
two operations, the calls that they make of the primitive, and what the caller holds.
`Locking.Brackets` is the promise.  The code is any function of the state, so that it may use the
lock itself, and what it left behind shows when and how often it ran.

The exclusive lock keeps the promise because an acquisition and a release each make one call that
comes off, their last, or none (`State.Made`).
-/

namespace Interlock

/-! ## The promise -/

/-- The calls of one operation, latest first: all are of its kind, and the operation comes off
exactly if the last of them did what it was made for, and no other did. -/
def Operated {C : Type} (kind done : C → Bool) (made : List C) (well : Bool) : Prop :=
  (∀ c ∈ made, kind c = true) ∧
    if well then
      ∃ c earlier, made = c :: earlier ∧ done c = true ∧ ∀ e ∈ earlier, done e = false
    else ∀ c ∈ made, done c = false

/-- Whether a call came back with a value. -/
def Outcome.isReturned {α : Type} : Outcome α → Bool
  | .returned _ => true
  | _ => false

/-- What comes of code that ended like this, by the release after it. -/
def Outcome.ofRelease {α : Type} : Ending α → Outcome Unit → Outcome α
  | .ok value, .returned () => .returned value
  | .ok _, .unwound payload => .unwound payload
  | .error payload, .returned () => .unwound payload
  | .error _, .unwound _ => .aborted
  | _, .blocked => .blocked
  | _, .aborted => .aborted

/-- A lock in states `S` over a primitive with calls `C`; of what a caller holds, `H` tells. -/
structure Locking (S C H : Type) where
  lock : S → Outcome Unit × S
  unlock : S → Outcome Unit × S
  /-- The calls of the primitive so far, latest first. -/
  calls : S → List C
  /-- Whether a call is one that an acquisition makes. -/
  asks : C → Bool
  /-- Whether a call is one that a release makes. -/
  gives : C → Bool
  /-- Whether a call did what it was made for. -/
  done : C → Bool
  holds : S → H
  /-- Whether the caller has no operation of its own under way. -/
  idle : S → Prop

namespace Locking

variable {S C H α : Type}

/-- Code that began in state `t` and ended like this is followed by one release, from the state that
it left.  If the release comes off and the code left what the caller held as it was, the caller
holds what it held in state `s`, before the acquisition. -/
def Releases (l : Locking S C H) (s t : S) (ended : Ending α × S) (result : Outcome α × S) : Prop :=
  ∃ given v gave, l.unlock ended.2 = (gave, v) ∧ result = (.ofRelease ended.1 gave, v) ∧
    (gave = .returned () ∨ ∃ payload, gave = .unwound payload) ∧
    l.calls v = given ++ l.calls ended.2 ∧ Operated l.gives l.done given gave.isReturned ∧
    (gave = .returned () → l.holds ended.2 = l.holds t → l.holds v = l.holds s)

/-- The promise about code that `run` runs under a lock, from state `s` on.  Either the acquisition
comes off, and the code runs once, from the state that the acquisition left, and is followed by one
release; or the acquisition unwinds, and the whole unwinds with the same payload and in the same
state, whatever the code is. -/
def Brackets (l : Locking S C H) (run : (S → Ending α × S) → Outcome α × S) (s : S) : Prop :=
  ∃ made t, l.calls t = made ++ l.calls s ∧
    ((l.lock s = (.returned (), t) ∧ Operated l.asks l.done made true ∧ l.idle t ∧
        ∀ body, l.idle (body t).2 → l.Releases s t (body t) (run body)) ∨
      ∃ payload, l.lock s = (.unwound payload, t) ∧ Operated l.asks l.done made false ∧
        ∀ body, run body = (.unwound payload, t))

end Locking

/-! ## The exclusive lock -/

namespace Exclusive

open Mutex (Call Op)

variable {σ α : Type}

/-- The exclusive lock; what callers hold of it is how much more often it was had than given
back. -/
def locking (b : Mutex.Backend σ) : Locking (State σ) Call Int where
  lock s :=
    match s.acquire b with
    | (.done, s) => (.returned (), s)
    | (.held _, s) => (.blocked, s)
    | (.failed f, s) => (.unwound (.text f.message), s)
  unlock s :=
    match s.release b with
    | (.ok (), s) => (.returned (), s)
    | (.error f, s) => (.unwound (.text f.message), s)
  calls s := s.wire.calls
  asks c := c.op == .tryLock || c.op == .lock
  gives c := c.op == .unlock
  done c := c.code == 0
  holds s := s.wire.calls.countP Call.hasLocked - s.wire.calls.countP Call.hasUnlocked
  idle _ := True

variable {b : Mutex.Backend σ} {s t : State σ}

theorem operated_of_answered {kind : Call → Bool} {made : List Call} {well : Bool}
    (ops : ∀ c ∈ made, kind c = true) (h : Answered made well) :
    Operated kind (·.code == 0) made well := by
  refine ⟨ops, ?_⟩
  cases well with
  | false => exact fun c hc => beq_eq_false_iff_ne.2 (h c hc)
  | true =>
    obtain ⟨c, earlier, rfl, last, failed⟩ := h
    exact ⟨c, earlier, rfl, beq_iff_eq.2 last, fun e he => beq_eq_false_iff_ne.2 (failed e he)⟩

theorem operated_of_made {ops : Op → Prop} {kind : Call → Bool} {well : Bool}
    (h : State.Made ops well s t) (same : ∀ c : Call, ops c.op → kind c = true) :
    ∃ made, t.wire.calls = made ++ s.wire.calls ∧ Operated kind (·.code == 0) made well := by
  obtain ⟨made, calls, kinds, answered⟩ := h
  exact ⟨made, calls, operated_of_answered (fun c hc => same c (kinds c hc)) answered⟩

theorem holds_of_accounts {v : Verdict}
    (h : ∃ made, t.wire.calls = made ++ s.wire.calls ∧ v.Accounts made) :
    (locking b).holds t - (locking b).holds s = [v].count .acquired - [v].count .released := by
  obtain ⟨made, calls, accounts⟩ := h
  have added := accounts.balance
  simp only [locking, calls, List.countP_append]
  omega

theorem gives_of_unlock (b : Mutex.Backend σ) (c : Call) (h : c.op = .unlock) :
    (locking b).gives c = true :=
  beq_iff_eq.2 h

/-- A release of the exclusive lock ends, and code that ran under the lock is followed by it. -/
theorem releases (b : Mutex.Backend σ) (body : State σ → Ending α × State σ)
    (acquired : (locking b).holds t = (locking b).holds s + 1) :
    (locking b).Releases s t (body t) (t.runHeld b body) := by
  rcases ran : body t with ⟨ending, u⟩
  have made := State.made_release b u
  have accounts := (State.made_release b u).release
  rcases released : u.release b with ⟨gave | ⟨⟨⟩⟩, v⟩
  · rw [released] at made
    obtain ⟨given, calls, operated⟩ :=
      operated_of_made made (gives_of_unlock b)
    refine ⟨given, v, .unwound (.text gave.message), by simp [locking, released], ?_, .inr ⟨_, rfl⟩,
      calls, operated, (nomatch ·)⟩
    cases ending <;> simp [State.runHeld, ran, released, Outcome.ofRelease]
  · rw [released] at made accounts
    obtain ⟨given, calls, operated⟩ :=
      operated_of_made made (gives_of_unlock b)
    refine ⟨given, v, .returned (), by simp [locking, released], ?_, .inl rfl, calls, operated,
      fun _ kept => ?_⟩
    · cases ending <;> simp [State.runHeld, ran, released, Outcome.ofRelease]
    · have back : (locking b).holds v - (locking b).holds u = 0 - 1 :=
        holds_of_accounts (v := .released) (by simpa using accounts)
      dsimp only at kept
      omega

/-- The exclusive lock keeps the promise from every state. -/
theorem brackets (returns : ∀ world, b.blocks world = false) (s : State σ) :
    (locking b).Brackets (fun body : State σ → Ending α × State σ => s.withLock b body) s := by
  have asked : ∀ c : Call, State.Acquiring c.op → (locking b).asks c = true := by
    intro c acquiring
    rcases acquiring with h | h <;> simp [locking, h]
  have made := State.made_acquire b s
  have accounts := (State.made_acquire b s).acquisition
  have unheld := State.acquire_ne_held returns s
  rcases acquired : s.acquire b with ⟨_ | left | f, t⟩
  · rw [acquired] at made accounts
    obtain ⟨made, calls, operated⟩ := operated_of_made made asked
    have one : (locking b).holds t - (locking b).holds s = 1 - 0 :=
      holds_of_accounts (v := .acquired) accounts
    refine ⟨made, t, calls, .inl ⟨by simp [locking, acquired], operated, trivial, fun body _ => ?_⟩⟩
    simp only [State.withLock, acquired]
    exact releases b body (by omega)
  · rw [acquired] at unheld
    exact absurd rfl (unheld left)
  · rw [acquired] at made
    obtain ⟨made, calls, operated⟩ := operated_of_made made asked
    refine ⟨made, t, calls, .inr ⟨.text f.message, by simp [locking, acquired], operated, ?_⟩⟩
    exact fun body => by simp only [State.withLock, acquired]

end Exclusive

end Interlock
