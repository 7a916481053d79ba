import Interlock.Proofs.Bracket.Exclusive
import Interlock.Proofs.ReadWrite.Lawful
import Interlock.Proofs.ReadWrite.Stages

/-!
# Code bracketed by the reader/writer lock

The reader/writer lock is acquired for writing in one stage that waits.  While it goes on its books
stay as they were, and its attempts are refused but for the last (`Entering`); its end makes the
caller the writer and leaves the readers alone.  The release finds the caller the writer, unless the
code gave that up, and makes it nobody.
-/

namespace Interlock

namespace ReadWrite

variable {σ α : Type} {raw : Raw σ} {me : Nat}

/-! ## An acquisition for writing -/

theorem Stride.books_of_seeking {o r o' r' : Nat} {a a' : Activity} {c : Option RawCall}
    (st : Stride me o r a c o' r' a') (seeking : a.isSeeking = true) :
    o' = o ∧ r' = r ∧ a' ≠ .finished (.acquired .write) := by
  cases st with
  | seek _ ha' => exact ⟨rfl, rfl, by rintro rfl; simp [Activity.isSeeking] at ha'⟩
  | grant => exact ⟨rfl, rfl, by simp⟩
  | wind lowered =>
    revert lowered seeking
    cases a <;> simp [Activity.isLowered, Activity.isSeeking]
  | _ => cases seeking

/-- The stage in which the lock is acquired for writing. -/
def Stage.forWriting : Stage := ⟨.write, true⟩

/-- A thread that began to acquire the lock for writing in state `s`. -/
structure Entering (me : Nat) (s t : State σ) (a : Activity) : Prop where
  made : ∃ made, s.Since t made ∧ During s.lock.spinLimit .forWriting [] made a
  spinLimit : t.lock.spinLimit = s.lock.spinLimit
  readers : t.lock.readers = s.lock.readers
  owner : t.lock.owner = if a = .finished (.acquired .write) then me else s.lock.owner

namespace Entering

variable {s t : State σ} {a : Activity}

theorem start (me : Nat) (s : State σ) : Entering me s s (.trying .forWriting []) where
  made := ⟨[], rfl, .trying⟩
  spinLimit := rfl
  readers := rfl
  owner := by simp

theorem step (h : Entering me s t a) :
    Entering me s (step raw me t a).1 (step raw me t a).2 := by
  obtain ⟨made, since, during⟩ := h.made
  have stride := step_stride raw me t a
  refine ⟨⟨_, since.step a, ?_⟩, (step_spinLimit t a).trans h.spinLimit, ?_, ?_⟩
  · exact (during.step raw me h.spinLimit).resolve_right fun gaveUp => nomatch gaveUp.1
  · obtain ⟨-, seeking⟩ | ⟨-, rfl | rfl⟩ := during.granted
    · exact (stride.books_of_seeking seeking).2.1.trans h.readers
    · exact h.readers
    · exact h.readers
  · obtain ⟨-, seeking⟩ | ⟨-, rfl | rfl⟩ := during.granted
    · obtain ⟨owner, -, goesOn⟩ := stride.books_of_seeking seeking
      have before : a ≠ .finished (.acquired .write) := by rintro rfl; cases seeking
      rw [owner, if_neg goesOn, h.owner, if_neg before]
    · rfl
    · exact h.owner

theorem operate (raw : Raw σ) (me : Nat) (s : State σ) :
    Entering me s (operate raw me (.acquire .forWriting) s).1
      (operate raw me (.acquire .forWriting) s).2 :=
  drive_induction (P := Entering me s) (fun _ _ => step) (fuel raw s) (start me s)

/-- What an acquisition for writing comes to: one attempt was granted, the last one. -/
theorem finished {r : Result} (h : Entering me s t (.finished r)) :
    r = .acquired .write ∧ t.lock.owner = me ∧ t.lock.readers = s.lock.readers ∧
      ∃ timed refused, t.calls = .attempt .write timed true :: refused ++ s.calls ∧
        ∀ c ∈ refused, ∃ timed, c = .attempt .write timed false := by
  obtain ⟨made, since, during⟩ := h.made
  have owner := h.owner
  have inVain {timed : Bool} {n : Nat} :
      ∀ c ∈ refused .write timed n, ∃ timed, c = .attempt .write timed false :=
    fun c hc => ⟨timed, List.eq_of_mem_replicate hc⟩
  cases during with
  | acquired won =>
    refine ⟨rfl, owner, h.readers, ?_⟩
    rw [since]
    cases won with
    | @atOnce tries =>
      refine ⟨false, (refused .write false tries).reverse, by simp [Stage.forWriting], ?_⟩
      exact fun c hc => inVain c (List.mem_reverse.1 hc)
    | @inTime slices =>
      refine ⟨true, (waited s.lock.spinLimit .write slices).reverse, by simp [Stage.forWriting], ?_⟩
      exact fun c hc => (List.mem_append.1 (List.mem_reverse.1 hc)).elim (inVain c) (inVain c)

end Entering

/-! ## The lock in use -/

/-- How an operation came out for its caller. -/
def Result.outcome : Option Result → Outcome Unit
  | none => .blocked
  | some (.failed f) => .unwound (.text f.message)
  | some _ => .returned ()

/-- Whether a call asks for the raw lock to write. -/
def RawCall.asksToWrite : RawCall → Bool
  | .attempt .write _ _ => true
  | _ => false

/-- Whether a call gives the raw lock back. -/
def RawCall.givesBack : RawCall → Bool
  | .unlockExclusive => true
  | .unlockShared => true
  | _ => false

/-- Only an attempt can come back without what it was made for. -/
def RawCall.isDone : RawCall → Bool
  | .attempt _ _ granted => granted
  | _ => true

/-- The reader/writer lock as `thread` acquires it for writing; what the thread holds is whether it
is the writer, and the readers. -/
def locking (raw : Raw σ) (thread : Nat) : Locking (Session σ) RawCall (Bool × Nat) where
  lock s :=
    let (r, s) := s.call raw thread (.acquire .forWriting)
    (Result.outcome r, s)
  unlock s :=
    let (r, s) := s.call raw thread .release
    (Result.outcome r, s)
  calls := Session.calls
  asks := RawCall.asksToWrite
  gives := RawCall.givesBack
  done := RawCall.isDone
  holds s := (decide (s.lock.owner = Tokens.numbered.of thread), s.lock.readers)
  idle s := s.system.isFree thread = true

variable {thread : Nat} {s t : Session σ}

/-- A free thread acquires the lock for writing. -/
theorem call_forWriting (yields : Yields raw) (free : s.system.isFree thread = true) :
    ∃ t, s.call raw thread (.acquire .forWriting) = (some (.acquired .write), t) ∧
      t.system.isFree thread = true ∧ t.lock.owner = Tokens.numbered.of thread ∧
      t.lock.readers = s.lock.readers ∧
      ∃ made, t.calls = made ++ s.calls ∧
        Operated RawCall.asksToWrite RawCall.isDone made true := by
  have entering := Entering.operate raw (Tokens.numbered.of thread) s.system.state
  obtain ⟨r, ended⟩ :=
    operate_ends (Tokens.numbered.of thread) yields (.acquire .forWriting) s.system.state
  rw [ended] at entering
  obtain ⟨rfl, owner, readers, timed, refused, calls, inVain⟩ := entering.finished
  rw [Session.call_eq free, ended]
  refine ⟨_, rfl, Session.isFree_set (System.lt_of_isFree free) _ _, owner, readers, _, calls, ?_,
    _, refused, rfl, rfl, ?_⟩
  · intro c hc
    obtain rfl | hc := List.mem_cons.1 hc
    · rfl
    · obtain ⟨_, rfl⟩ := inVain c hc
      rfl
  · intro c hc
    obtain ⟨_, rfl⟩ := inVain c hc
    rfl

/-- A release by a free thread comes off in one call of the raw lock, or unwinds without one.  It
comes off if the thread is the writer, who is then nobody. -/
theorem call_release (raw : Raw σ) (free : s.system.isFree thread = true) :
    ∃ given r v, s.call raw thread .release = (some r, v) ∧ v.calls = given ++ s.calls ∧
      (r = .released ∧ Operated RawCall.givesBack RawCall.isDone given true ∨
        r = .failed .unlockUnheld ∧ Operated RawCall.givesBack RawCall.isDone given false) ∧
      (s.lock.owner = Tokens.numbered.of thread →
        v.lock.owner = 0 ∧ v.lock.readers = s.lock.readers) := by
  have one (c : RawCall) (gives : c.givesBack = true) (did : c.isDone = true) :
      Operated RawCall.givesBack RawCall.isDone [c] true :=
    ⟨by simpa using gives, c, [], rfl, did, by simp⟩
  have called : s.call raw thread .release = _ := Session.call_eq free .release
  rw [operate_release] at called
  unfold State.released at called
  by_cases mine : s.system.state.lock.owner = Tokens.numbered.of thread
  · rw [if_pos mine] at called
    exact ⟨[.unlockExclusive], .released, _, called, rfl, .inl ⟨rfl, one _ rfl rfl⟩,
      fun _ => ⟨rfl, rfl⟩⟩
  · rw [if_neg mine] at called
    by_cases none : s.system.state.lock.readers = 0
    · rw [if_pos none] at called
      exact ⟨[], .failed .unlockUnheld, _, called, rfl, .inr ⟨rfl, by simp, by simp⟩,
        (absurd · mine)⟩
    · rw [if_neg none] at called
      exact ⟨[.unlockShared], .released, _, called, rfl, .inl ⟨rfl, one _ rfl rfl⟩,
        (absurd · mine)⟩

theorem runHeld_eq {body : Session σ → Ending α × Session σ} {r : Result} {v : Session σ}
    (called : (body t).2.call raw thread .release = (some r, v)) :
    t.runHeld raw thread body = (.ofRelease (body t).1 (Result.outcome (some r)), v) := by
  rcases ran : body t with ⟨_ | _, u⟩ <;> rw [ran] at called <;> cases r <;>
    simp [Session.runHeld, ran, called, Result.outcome, Outcome.ofRelease]

/-- Code that ran while the thread was the writer is followed by a release. -/
theorem releases (raw : Raw σ) {body : Session σ → Ending α × Session σ}
    (free : (body t).2.system.isFree thread = true)
    (before : s.lock.owner ≠ Tokens.numbered.of thread)
    (owner : t.lock.owner = Tokens.numbered.of thread) (readers : t.lock.readers = s.lock.readers) :
    (locking raw thread).Releases s t (body t) (t.runHeld raw thread body) := by
  obtain ⟨given, r, v, called, calls, ended, books⟩ := call_release raw free
  refine ⟨given, v, Result.outcome (some r), by simp [locking, called], runHeld_eq called, ?_,
    calls, ?_, fun _ kept => ?_⟩
  · obtain ⟨rfl, -⟩ | ⟨rfl, -⟩ := ended
    · exact .inl rfl
    · exact .inr ⟨_, rfl⟩
  · obtain ⟨rfl, operated⟩ | ⟨rfl, operated⟩ := ended
    · exact operated
    · exact operated
  · obtain ⟨sameOwner, sameReaders⟩ := Prod.mk.inj kept
    obtain ⟨nobody, left⟩ := books ((decide_eq_decide.1 sameOwner).2 owner)
    have after : v.lock.owner ≠ Tokens.numbered.of thread := by
      rw [nobody]
      exact (Tokens.numbered.ne_zero thread).symm
    show (decide _, v.lock.readers) = (decide _, s.lock.readers)
    rw [decide_eq_false after, decide_eq_false before, left, sameReaders, readers]

/-- The reader/writer lock keeps the promise from every state in which the caller is not the writer
already. -/
theorem brackets (yields : Yields raw) (free : s.system.isFree thread = true)
    (before : s.lock.owner ≠ Tokens.numbered.of thread) :
    (locking raw thread).Brackets
      (fun body : Session σ → Ending α × Session σ => s.within raw thread .write body) s := by
  obtain ⟨t, called, idle, owner, readers, made, calls, operated⟩ := call_forWriting yields free
  refine ⟨made, t, calls, .inl ⟨by simp [locking, called, Result.outcome], operated, idle, ?_⟩⟩
  intro body idle'
  have entered : s.enter raw thread .write = (some (.acquired .write), t) := by
    simp [Session.enter, Scope.mode, Strategy.waitFor, called]
  simp only [Session.within, entered]
  exact releases raw idle' before owner readers

end ReadWrite

open ReadWrite (Session Script System Tokens Yields)

/-- **Exception safety.**  Over every primitive whose calls return, code that runs under either lock
runs exactly if the acquisition came off, once, after the call that obtained the lock, and is
followed by one release, however it ends; an acquisition that unwinds ends the whole.  If the
release comes off, the outcome is that of the code, and a caller whose code kept its hold has again
what it had before; if the release unwinds after code that returned, so does the whole.  The
exclusive lock promises it from every state, the reader/writer lock from every state in which the
caller is not the writer already; in a session of one thread nobody else is. -/
theorem bracketed {σ τ α : Type} (b : Mutex.Backend σ) (returns : ∀ world, b.blocks world = false)
    (raw : ReadWrite.Raw τ) (yields : Yields raw) :
    (∀ s : Exclusive.State σ, (Exclusive.locking b).Brackets
      (fun body : Exclusive.State σ → Ending α × Exclusive.State σ => s.withLock b body) s) ∧
    (∀ (thread : Nat) (s : Session τ), s.system.isFree thread = true →
      s.lock.owner ≠ Tokens.numbered.of thread →
      (ReadWrite.locking raw thread).Brackets
        (fun body : Session τ → Ending α × Session τ => s.within raw thread .write body) s) ∧
    ∀ (spinLimit : Nat) (world : τ) (s : Session τ),
      Session.Visited raw 0 { system := System.fresh 1 spinLimit world } s →
      s.system.isFree 0 = true ∧
        s.lock.isWriteLocked = decide (s.lock.owner = Tokens.numbered.of 0) ∧
        ∀ body : Session τ → Ending α × Session τ,
          (∀ {s}, Session.Visited raw 0 { system := System.fresh 1 spinLimit world } s →
            Session.Visited raw 0 { system := System.fresh 1 spinLimit world } (body s).2) →
          Session.Visited raw 0 { system := System.fresh 1 spinLimit world }
            (s.within raw 0 .write body).2 := by
  refine ⟨fun s => Exclusive.brackets returns s,
    fun thread s free before => ReadWrite.brackets yields free before,
    fun limit world s visited => ?_⟩
  have rest := (Session.atRest_fresh limit world).visited yields visited
  exact ⟨rest.free, rest.isWriteLocked_eq, fun body inside => visited.within .write inside⟩

/-- A mutex that is in other hands for one try, and refuses for good to be given back. -/
def clinging : Mutex.Script where
  tryLock := ⟨[(16, 1)]⟩
  unlock := ⟨[(11, 1), (1, 1)]⟩

/-- Code that returns under a clinging mutex unwinds with the fault of the release; code that
unwinds under a reader/writer lock, whose attempts were refused at first, unwinds as it did. -/
theorem bracketed_of_clinging :
    let b := Mutex.Script.backend
    let s : Exclusive.State Mutex.Script :=
      { lock := { spinLimit := 1 }, wire := { world := clinging } }
    let first : Session Script := { system := System.fresh 1 1 { exclusive := ⟨[(false, 2)]⟩ } }
    (s.withLock b fun s => (.ok 7, s)).1 =
        .unwound (.text (Exclusive.Fault.misuse (.misuse "pthread_mutex_unlock" 1)).message) ∧
      (Exclusive.locking b).Brackets
        (fun body : Exclusive.State Mutex.Script → Ending Nat × Exclusive.State Mutex.Script =>
          s.withLock b body) s ∧
      (first.within Script.raw 0 .write fun s => ((.error .other : Ending Nat), s)).1 =
        .unwound .other ∧
      (ReadWrite.locking Script.raw 0).Brackets
        (fun body : Session Script → Ending Nat × Session Script =>
          first.within Script.raw 0 .write body) first := by
  obtain ⟨exclusive, readWrite, -⟩ :=
    bracketed (α := Nat) Mutex.Script.backend (fun _ => rfl) Script.raw Script.yields
  exact ⟨by decide +kernel, exclusive _, by decide +kernel, readWrite 0 _ rfl (by decide)⟩

end Interlock
