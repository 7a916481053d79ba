import Interlock.Proofs.ReadWrite.Alone

/-!
# The raw lock is called lawfully

Giving the raw lock back and lowering it are safe only for a holder.  The reader/writer lock decides
by its books whether to do so, and the books of one thread follow its calls exactly, whatever the
raw lock answers (`Ledger`): the calls made so far are lawful, the readers are the shares obtained
and not given back, and the writer is the thread exactly while it holds the raw lock exclusively.

Between two operations of a thread (`Session.Visited`) the books are exact (`Session.AtRest`), which
says when a release or a downgrade finds nothing to give up.
-/

namespace Interlock.ReadWrite

/-! ## The calls as a history -/

/-- Whether a call obtained the raw lock in a mode. -/
def RawCall.grants (mode : Mode) : RawCall → Bool
  | .attempt m _ granted => granted && m == mode
  | _ => false

/-- Whether a call ends an exclusive hold. -/
def RawCall.endsWriting : RawCall → Bool
  | .unlockExclusive | .downgrade => true
  | _ => false

/-- What a thread holds that made these calls, latest first. -/
def held : List RawCall → Held
  | [] => {}
  | c :: earlier => (held earlier).after c

/-- Every call was one that its caller might make. -/
def Lawful : List RawCall → Prop
  | [] => True
  | c :: earlier => (held earlier).Permits c ∧ Lawful earlier

/-- The raw lock was obtained exclusively, and the hold was not ended since. -/
def WriteHeld (calls : List RawCall) : Prop :=
  ∃ since grant before, calls = since ++ grant :: before ∧ grant.grants .write = true ∧
    ∀ c ∈ since, c.endsWriting = false

section History

variable {calls later earlier : List RawCall} {c : RawCall}

theorem Lawful.suffix (h : Lawful (later ++ earlier)) : Lawful earlier := by
  induction later with
  | nil => exact h
  | cons c later ih => exact ih h.2

/-- The raw lock is held for writing since the last grant that nothing has ended. -/
theorem writeHeld_cons_iff :
    WriteHeld (c :: calls) ↔
      c.grants .write = true ∨ (c.endsWriting = false ∧ WriteHeld calls) := by
  constructor
  · rintro ⟨since, grant, before, split, granted, kept⟩
    cases since with
    | nil =>
      obtain ⟨rfl, rfl⟩ := List.cons.inj split
      exact .inl granted
    | cons first since =>
      obtain ⟨rfl, rfl⟩ := List.cons.inj split
      exact .inr ⟨kept c List.mem_cons_self, since, grant, before, rfl, granted,
        fun e he => kept e (List.mem_cons_of_mem c he)⟩
  · rintro (granted | ⟨goesOn, since, grant, before, rfl, granted, kept⟩)
    · exact ⟨[], c, calls, rfl, granted, by simp⟩
    · refine ⟨c :: since, grant, before, rfl, granted, ?_⟩
      intro e he
      rcases List.mem_cons.1 he with rfl | he
      · exact goesOn
      · exact kept e he

/-- What is held exclusively is what was obtained and not given up since. -/
theorem writes_held_iff : (held calls).writes = true ↔ WriteHeld calls := by
  induction calls with
  | nil => simp [held, WriteHeld]
  | cons c calls ih =>
    rw [writeHeld_cons_iff, ← ih, held]
    rcases c with ⟨_ | _, _, _ | _⟩ | _ | _ | _ <;>
      simp [Held.after, RawCall.grants, RawCall.endsWriting]

/-- Shares are what was granted or lowered to, less what was given back. -/
theorem shares_after {h : Held} (permitted : h.Permits c) :
    (h.after c).shares + [c].count .unlockShared =
      h.shares + [c].countP (RawCall.grants .read) + [c].count .downgrade := by
  cases c with
  | attempt mode timed granted => cases mode <;> cases granted <;> rfl
  | unlockShared => exact Nat.sub_add_cancel permitted
  | unlockExclusive | downgrade => rfl

/-- The shares held are those obtained, by attempts and by downgrades, and not given back. -/
theorem shares_held_add (h : Lawful calls) :
    (held calls).shares + calls.count .unlockShared =
      calls.countP (RawCall.grants .read) + calls.count .downgrade := by
  induction calls with
  | nil => rfl
  | cons c calls ih =>
    have last := shares_after h.1
    have before := ih h.2
    rw [held, ← List.singleton_append, List.count_append, List.count_append, List.countP_append]
    omega

end History

/-! ## The books of one thread -/

/-- The books of a lock that only the thread with token `me` uses, at its place in an operation. -/
structure Ledger {σ : Type} (me : Nat) (s : State σ) (a : Activity) : Prop where
  lawful : Lawful s.calls
  readers : s.lock.readers = a.reads (held s.calls)
  booked : a.Booked (s.lock.owner = me) (held s.calls)
  owner : s.lock.owner = 0 ∨ s.lock.owner = me

namespace Ledger

variable {σ : Type} {raw : Raw σ} {me : Nat} {s t : State σ} {a a' : Activity}

/-- The books stay right when an operation takes a step. -/
theorem step (hme : me ≠ 0) (h : Ledger me s a) :
    Ledger me (step raw me s a).1 (step raw me s a).2 := by
  have stride := step_stride raw me s a
  -- alone, a thread finds a reader in the books only if it is its own share
  have backed : a = .leaving → 0 < s.lock.readers → 0 < (held s.calls).shares := by
    rintro rfl reader
    rwa [h.readers] at reader
  have calls : held (ReadWrite.step raw me s a).1.calls =
      (held s.calls).next (a.call? raw s.world) := by
    rw [step_calls]
    cases a.call? raw s.world <;> rfl
  refine ⟨?_, ?_, ?_, ?_⟩
  · rw [step_calls]
    cases made : a.call? raw s.world with
    | none => exact h.lawful
    | some c => exact ⟨stride.permits h.booked made, h.lawful⟩
  · have counted := stride.reads h.booked backed
    have before := h.readers
    rw [calls]
    omega
  · rw [calls]
    exact stride.booked hme h.booked backed
  · rcases stride.owner h.booked with same | ⟨mine, -⟩ | ⟨-, nobody⟩
    · rw [same]
      exact h.owner
    · exact .inr mine
    · exact .inl nobody

/-- Between operations it does not matter which one has ended or begins. -/
theorem congr (h : Ledger me s a) (ha : a.isExact = true) (ha' : a'.isExact = true)
    (calls : t.calls = s.calls) (readers : t.lock.readers = s.lock.readers)
    (owner : t.lock.owner = s.lock.owner) : Ledger me t a' := by
  refine ⟨calls ▸ h.lawful, ?_, ?_, owner ▸ h.owner⟩
  · rw [readers, calls, h.readers, Activity.reads_of_isExact ha, Activity.reads_of_isExact ha']
  · have booked := h.booked
    rw [Activity.booked_iff_of_isExact ha] at booked
    rw [Activity.booked_iff_of_isExact ha', calls, owner]
    exact booked

/-- The books stay right through a whole operation. -/
theorem operate (h : Ledger me s (.finished .released)) (raw : Raw σ) (hme : me ≠ 0)
    (op : Operation) :
    Ledger me (operate raw me op s).1 (operate raw me op s).2 := by
  have begun : Ledger me s op.start := by
    refine h.congr rfl ?_ rfl rfl rfl
    cases op <;> rfl
  exact drive_induction (P := Ledger me) (fun _ _ => step hme) (fuel raw s) begun

/-- Between operations the lock counts as write locked exactly if its owner is the thread. -/
theorem isWriteLocked_iff (hme : me ≠ 0) (h : Ledger me s (.finished .released)) :
    s.lock.isWriteLocked = true ↔ s.lock.owner = me := by
  simp only [isWriteLocked, bne_iff_ne]
  rcases h.owner with nobody | mine
  · simp [nobody, hme.symm]
  · simp [mine, hme]

end Ledger

/-! ## Sessions of one thread -/

/-- Whether a step releases the lock, where these guards are kept. -/
def Step.releases {α : Type} (guards : List Mode) : Step α → Bool
  | .release => true
  | .dropGuard => !guards.isEmpty
  | _ => false

/-- Whether a step lowers the lock, where these guards are kept. -/
def Step.lowers {α : Type} (guards : List Mode) : Step α → Bool
  | .downgrade => true
  | .downgradeGuard => guards.head? == some .write
  | _ => false

/-- Whether a step has unwound. -/
def Reply.hasUnwound {α : Type} : Reply α → Bool
  | .unwound _ => true
  | _ => false

namespace Session

variable {σ α β : Type} {raw : Raw σ} {thread : Nat} {first s t : Session σ}

/-- The calls of the raw lock so far, latest first. -/
def calls (s : Session σ) : List RawCall := s.system.state.calls

/-- The sessions between two operations of a thread that uses the lock alone, from `first` on. -/
inductive Visited (raw : Raw σ) (thread : Nat) (first : Session σ) : Session σ → Prop
  | start : Visited raw thread first first
  | call {s : Session σ} (op : Operation) (v : Visited raw thread first s) :
      Visited raw thread first (s.call raw thread op).2
  | keep {s : Session σ} (guards : List Mode) (v : Visited raw thread first s) :
      Visited raw thread first { s with guards }
  | setDebug {s : Session σ} (on : Bool) (v : Visited raw thread first s) :
      Visited raw thread first (s.modify fun l => { l with debugging := on })
  | clear {s : Session σ} (v : Visited raw thread first s) :
      Visited raw thread first (s.modify clearCounters)

namespace Visited

theorem of_call {op : Operation} {r : Option Result} (v : Visited raw thread first s)
    (called : s.call raw thread op = (r, t)) : Visited raw thread first t := by
  have after := v.call op
  rwa [called] at after

/-- Entering a scope leads on by operations. -/
theorem enter (v : Visited raw thread first s) (scope : Scope) :
    Visited raw thread first (s.enter raw thread scope).2 := by
  fun_cases Session.enter raw thread scope s with
  | case1 level t called => exact (v.of_call called).call _
  | case2 level t called => exact v.of_call called
  | case3 r t _ called => exact v.of_call called

theorem runHeld (v : Visited raw thread first s) {body : Session σ → Ending β × Session σ}
    (inside : ∀ {s}, Visited raw thread first s → Visited raw thread first (body s).2) :
    Visited raw thread first (s.runHeld raw thread body).2 := by
  have after := (inside v).call .release
  simp only [Session.runHeld]
  split <;> exact after

theorem within (v : Visited raw thread first s) (scope : Scope)
    {body : Session σ → Ending β × Session σ}
    (inside : ∀ {s}, Visited raw thread first s → Visited raw thread first (body s).2) :
    Visited raw thread first (s.within raw thread scope body).2 := by
  have entered := v.enter scope
  fun_cases Session.within raw thread scope body s with
  | case1 f t failed =>
    rw [failed] at entered
    exact entered
  | case2 r t _ ended =>
    rw [ended] at entered
    exact entered.runHeld inside
  | case3 t waits =>
    rw [waits] at entered
    exact entered

theorem probe (v : Visited raw thread first s) (mode : Mode) :
    Visited raw thread first (s.probe raw thread mode).2 := by
  fun_cases Session.probe raw thread mode s with
  | case1 level t called => exact (v.of_call called).call _
  | case2 level t called => exact v.of_call called
  | case3 r t _ called => exact v.of_call called

theorem inScope (v : Visited raw thread first s) (body : Ending Unit) :
    Visited raw thread first (s.inScope raw thread body).2 := by
  cases body with
  | error payload => exact v
  | ok nothing => exact (v.probe .read).probe .write

/-- Every step of a session leads on by operations and changes of its settings. -/
theorem perform (v : Visited raw thread first s) (step : Step α) :
    Visited raw thread first (s.perform raw thread step).2 := by
  cases step with
  | acquire strategy => exact v.call _
  | release | downgrade => exact v.call _
  | guard mode =>
    simp only [Session.perform]
    split
    · next called => exact (v.of_call called).keep _
    · next called => exact v.of_call called
  | tryGuard mode =>
    simp only [Session.perform]
    split
    · next called =>
      split
      · exact (v.of_call called).keep _
      · exact v.of_call called
    · next called => exact v.of_call called
  | dropGuard =>
    simp only [Session.perform]
    split
    · exact v
    · next guards _ =>
      split
      · next called => exact (v.keep guards).of_call called
      · next called => exact (v.keep guards).of_call called
      · next called => exact (v.keep guards).of_call called
  | downgradeGuard =>
    simp only [Session.perform]
    split
    · next guards _ =>
      split
      · next called => exact ((v.keep guards).of_call called).keep _
      · next called => exact (v.keep guards).of_call called
    · exact v
  | withLock body => exact v.within .write fun v => v
  | scope scope body => exact v.within scope fun v => v.inScope body
  | setDebug on => exact v.setDebug on
  | clear => exact v.clear
  | render => exact v

/-- A run leads on by operations and changes of the settings. -/
theorem run (v : Visited raw thread first s) (steps : List (Step α)) :
    Visited raw thread first (s.run raw thread steps).2 := by
  induction steps generalizing s with
  | nil => exact v
  | cons step steps ih => exact ih (v.perform step)

end Visited

/-- The thread stands between two operations, and the books show exactly what it holds. -/
structure AtRest (thread : Nat) (s : Session σ) : Prop where
  free : s.system.isFree thread = true
  ledger : Ledger (Tokens.numbered.of thread) s.system.state (.finished .released)

/-- A free thread carries an operation out as it would alone. -/
theorem call_eq (free : s.system.isFree thread = true) (op : Operation) :
    s.call raw thread op =
      ((operate raw (Tokens.numbered.of thread) op s.system.state).2.result?,
        { s with
          system := ⟨(operate raw (Tokens.numbered.of thread) op s.system.state).1,
            s.system.threads.set thread
              (operate raw (Tokens.numbered.of thread) op s.system.state).2⟩ }) := by
  simp only [call, System.call_eq free]

theorem isFree_set {system : System σ} (inside : thread < system.threads.length) (state : State σ)
    (r : Result) :
    (⟨state, system.threads.set thread (.finished r)⟩ : System σ).isFree thread = true :=
  System.isFree_iff.2 ⟨r, List.getElem?_set_self inside⟩

namespace AtRest

/-- After a call of a lock that answers, its thread is at rest again. -/
theorem call (yields : Yields raw) (h : AtRest thread s) (op : Operation) :
    AtRest thread (s.call raw thread op).2 := by
  have inside := System.lt_of_isFree h.free
  obtain ⟨r, ended⟩ := operate_ends (Tokens.numbered.of thread) yields op s.system.state
  have ledger := h.ledger.operate raw (Tokens.numbered.ne_zero thread) op
  rw [call_eq h.free, ended]
  rw [ended] at ledger
  exact ⟨isFree_set inside _ r, ledger.congr rfl rfl rfl rfl rfl⟩

/-- Every operation ends, and the books are exact after it. -/
theorem visited (yields : Yields raw) (h : AtRest thread first)
    (v : Visited raw thread first s) : AtRest thread s := by
  induction v with
  | start => exact h
  | call op v ih => exact ih.call yields op
  | keep guards v ih => exact ⟨ih.free, ih.ledger⟩
  | setDebug on v ih => exact ⟨ih.free, ih.ledger.congr rfl rfl rfl rfl rfl⟩
  | clear v ih => exact ⟨ih.free, ih.ledger.congr rfl rfl rfl rfl rfl⟩

end AtRest

/-- Whether the lock is given up by the call `c` between two sessions or, where that is refused,
nothing happens to its own part or to the raw lock, which is not called. -/
def GivesUp (s t : Session σ) (refused : Bool) (c : RawCall) : Prop :=
  if refused then
    t.lock = s.lock ∧ t.system.state.world = s.system.state.world ∧ t.calls = s.calls
  else t.calls = c :: s.calls

/-- Whether the books show no holder. -/
def isUnheld (s : Session σ) : Bool := !s.lock.isWriteLocked && s.lock.readers == 0

/-- The call by which the lock is released. -/
def unlockCall (s : Session σ) : RawCall :=
  if s.lock.isWriteLocked then .unlockExclusive else .unlockShared

/-- What comes of code run under the lock, when the release after it finds nothing or does not. -/
def heldOutcome (unheld : Bool) : Ending β → Outcome β
  | .ok value => if unheld then .unwound (.text (Fault.unlockUnheld).message) else .returned value
  | .error payload => if unheld then .aborted else .unwound payload

namespace AtRest

theorem isWriteLocked_eq (h : AtRest thread s) :
    s.lock.isWriteLocked = decide (s.system.state.lock.owner = Tokens.numbered.of thread) :=
  Bool.eq_iff_iff.2 ((h.ledger.isWriteLocked_iff (Tokens.numbered.ne_zero thread)).trans
    decide_eq_true_iff.symm)

/-- What a release comes to.  The guards that are kept do not matter. -/
theorem release (h : AtRest thread s) (raw : Raw σ) (guards : List Mode) :
    ∃ t, { s with guards }.call raw thread .release =
        (some (if s.isUnheld then .failed .unlockUnheld else .released), t) ∧
      s.GivesUp t s.isUnheld s.unlockCall := by
  have free : ({ s with guards } : Session σ).system.isFree thread = true := h.free
  rw [call_eq free, operate_release]
  unfold State.released GivesUp isUnheld unlockCall
  rw [h.isWriteLocked_eq]
  by_cases mine : s.system.state.lock.owner = Tokens.numbered.of thread
  · simp only [mine, ↓reduceIte, decide_true]
    exact ⟨_, rfl, rfl⟩
  · by_cases none : s.system.state.lock.readers = 0
    · simp only [mine, ↓reduceIte, decide_false, none, lock]
      exact ⟨_, rfl, rfl, rfl, rfl⟩
    · simp only [mine, ↓reduceIte, decide_false, none, lock, beq_eq_false_iff_ne.2 none]
      exact ⟨_, rfl, rfl⟩

/-- A downgrade lowers a lock that its thread writes under, and fails otherwise. -/
theorem downgrade (h : AtRest thread s) (raw : Raw σ) (guards : List Mode) :
    ∃ t, { s with guards }.call raw thread .downgrade =
        (some (if s.lock.isWriteLocked then .lowered else .failed .downgradeUnheld), t) ∧
      s.GivesUp t (!s.lock.isWriteLocked) .downgrade := by
  have free : ({ s with guards } : Session σ).system.isFree thread = true := h.free
  rw [call_eq free, operate_downgrade]
  unfold State.lowered GivesUp
  rw [h.isWriteLocked_eq]
  by_cases mine : s.system.state.lock.owner = Tokens.numbered.of thread
  · simp only [mine, ↓reduceIte, decide_true]
    exact ⟨_, rfl, rfl⟩
  · simp only [mine, ↓reduceIte, decide_false]
    exact ⟨_, rfl, rfl, rfl, rfl⟩

end AtRest

theorem atRest_fresh (spinLimit : Nat) (world : σ) :
    AtRest 0 ({ system := System.fresh 1 spinLimit world } : Session σ) := by
  refine ⟨rfl, trivial, rfl, ?_, .inl rfl⟩
  constructor <;> intro impossible <;> cases impossible

namespace AtRest

/-- At the end of a guarded body the lock is given up, and the outcome says whether that failed. -/
theorem runHeld {body : Session σ → Ending β × Session σ} (h : AtRest thread (body s).2) :
    (s.runHeld raw thread body).1 = heldOutcome (body s).2.isUnheld (body s).1 ∧
      (body s).2.GivesUp (s.runHeld raw thread body).2 (body s).2.isUnheld
        (body s).2.unlockCall := by
  rcases ran : body s with ⟨ending, t⟩
  rw [ran] at h
  obtain ⟨u, called, gives⟩ := h.release raw t.guards
  simp only [Session.runHeld, ran, called]
  cases unheld : t.isUnheld <;> cases ending <;> rw [unheld] at gives <;> exact ⟨rfl, gives⟩

/-- A step that releases gives up what is held, and unwinds exactly if nothing is. -/
theorem perform_releases (h : AtRest thread s) {step : Step α}
    (releases : step.releases s.guards = true) :
    (s.perform raw thread step).1.hasUnwound = s.isUnheld ∧
      s.GivesUp (s.perform raw thread step).2 s.isUnheld s.unlockCall := by
  cases step with
  | release =>
    obtain ⟨t, called, gives⟩ := h.release raw s.guards
    simp only [perform, called]
    refine ⟨?_, gives⟩
    cases s.isUnheld <;> rfl
  | dropGuard =>
    cases kept : s.guards with
    | nil => simp [Step.releases, kept] at releases
    | cons mode guards =>
      obtain ⟨t, called, gives⟩ := h.release raw guards
      simp only [perform, kept, called]
      cases unheld : s.isUnheld with
      | true =>
        rw [unheld] at gives
        exact ⟨rfl, gives⟩
      | false =>
        rw [unheld] at gives
        exact ⟨rfl, gives⟩
  | _ => cases releases

/-- A step that lowers gives up writing for reading, and unwinds exactly if the lock is not written
under. -/
theorem perform_lowers (h : AtRest thread s) {step : Step α}
    (lowers : step.lowers s.guards = true) :
    (s.perform raw thread step).1.hasUnwound = !s.lock.isWriteLocked ∧
      s.GivesUp (s.perform raw thread step).2 (!s.lock.isWriteLocked) .downgrade := by
  cases step with
  | downgrade =>
    obtain ⟨t, called, gives⟩ := h.downgrade raw s.guards
    simp only [perform, called]
    refine ⟨?_, gives⟩
    cases s.lock.isWriteLocked <;> rfl
  | downgradeGuard =>
    obtain ⟨guards, kept⟩ : ∃ guards, s.guards = .write :: guards := by
      cases kept : s.guards with
      | nil => simp [Step.lowers, kept] at lowers
      | cons mode guards =>
        obtain rfl : mode = .write := by simpa [Step.lowers, kept] using lowers
        exact ⟨guards, rfl⟩
    obtain ⟨t, called, gives⟩ := h.downgrade raw guards
    simp only [perform, kept, called]
    cases writer : s.lock.isWriteLocked with
    | true =>
      rw [writer] at gives
      exact ⟨rfl, gives⟩
    | false =>
      rw [writer] at gives
      exact ⟨rfl, gives⟩
  | _ => cases lowers

end AtRest

end Session

/-- **The raw lock is called lawfully.**  Whatever the raw lock answers, between any two operations
of a thread that uses the lock alone: the raw lock was given back as the writer's, and lowered, only
when it had been obtained exclusively and kept since; at no time had more shares been given back
than obtained; the readers are the shares obtained and not given back, and there is a writer exactly
while an exclusive hold has not ended.  A release unwinds exactly when there is neither writer nor
reader, and a downgrade exactly when there is no writer; each makes one call or, when it unwinds,
none, and then leaves the lock as it is.  Code run under the lock ends in such a release. -/
theorem Session.lawful {α : Type} (spinLimit : Nat) (script : Script) :
    let first : Session Script := { system := System.fresh 1 spinLimit script }
    (∀ steps : List (Step α), Visited Script.raw 0 first (first.run Script.raw 0 steps).2) ∧
    ∀ s, Visited Script.raw 0 first s →
      (∀ later c earlier, s.calls = later ++ c :: earlier → c.endsWriting = true →
        WriteHeld earlier) ∧
      (∀ later earlier, s.calls = later ++ earlier → earlier.count .unlockShared ≤
        earlier.countP (RawCall.grants .read) + earlier.count .downgrade) ∧
      s.lock.readers + s.calls.count .unlockShared =
        s.calls.countP (RawCall.grants .read) + s.calls.count .downgrade ∧
      (s.lock.isWriteLocked = true ↔ WriteHeld s.calls) ∧
      (∀ step : Step α, step.releases s.guards = true →
        (s.perform Script.raw 0 step).1.hasUnwound = s.isUnheld ∧
          s.GivesUp (s.perform Script.raw 0 step).2 s.isUnheld s.unlockCall) ∧
      (∀ step : Step α, step.lowers s.guards = true →
        (s.perform Script.raw 0 step).1.hasUnwound = !s.lock.isWriteLocked ∧
          s.GivesUp (s.perform Script.raw 0 step).2 (!s.lock.isWriteLocked) .downgrade) ∧
      ∀ body : Session Script → Ending α × Session Script,
        Visited Script.raw 0 first (body s).2 →
          (s.runHeld Script.raw 0 body).1 = heldOutcome (body s).2.isUnheld (body s).1 ∧
            (body s).2.GivesUp (s.runHeld Script.raw 0 body).2 (body s).2.isUnheld
              (body s).2.unlockCall := by
  refine ⟨fun steps => Visited.start.run steps, ?_⟩
  have atRest := fun s => (atRest_fresh spinLimit script).visited (s := s) Script.yields
  intro s visited
  have rest : AtRest 0 s := atRest s visited
  have lawful : Lawful s.calls := rest.ledger.lawful
  refine ⟨?_, ?_, ?_, ?_, ?_, ?_, ?_⟩
  · intro later c earlier split ends
    rw [split] at lawful
    have permitted : (held earlier).Permits c := lawful.suffix.1
    rw [← writes_held_iff]
    cases c with
    | unlockExclusive | downgrade => exact permitted
    | attempt | unlockShared => cases ends
  · intro later earlier split
    rw [split] at lawful
    have counted := shares_held_add lawful.suffix
    omega
  · have readers : s.lock.readers = (held s.calls).shares := rest.ledger.readers
    rw [readers]
    exact shares_held_add lawful
  · rw [← writes_held_iff]
    exact (rest.ledger.isWriteLocked_iff (Tokens.numbered.ne_zero 0)).trans rest.ledger.booked
  · exact fun step => rest.perform_releases
  · exact fun step => rest.perform_lowers
  · exact fun body inside => (atRest _ inside).runHeld

/-- Answers that no lock would give: the lock is had exclusively a second time, by a timed attempt,
and shared at once. -/
def Script.contrary : Script where
  exclusive := ⟨[(true, 1), (false, 3)]⟩
  exclusiveFor := ⟨[(false, 1), (true, 1)]⟩

/-- With contrary answers a lock is taken three times and released twice; the third release finds
nothing to give up. -/
theorem lawful_of_contrary :
    let first : Session Script := { system := System.fresh 1 2 Script.contrary }
    let steps : List (Step Unit) := [.guard .write, .guard .write, .acquire .forReading,
      .downgradeGuard, .dropGuard, .release]
    let s := (first.run Script.raw 0 steps).2
    s.calls.countP (RawCall.grants .write) = 2 ∧ s.guards = [.write] ∧
      (s.lock.isWriteLocked = true ↔ WriteHeld s.calls) ∧
      (s.perform Script.raw 0 (.dropGuard : Step Unit)).1.hasUnwound = true ∧
      (s.perform Script.raw 0 (.downgrade : Step Unit)).1.hasUnwound = true := by
  have all := Session.lawful (α := Unit) 2 Script.contrary
  intro first steps s
  obtain ⟨-, -, -, writer, releases, lowers, -⟩ := all.2 s (all.1 steps)
  refine ⟨by decide +kernel, by decide +kernel, writer, ?_, ?_⟩
  · exact (releases .dropGuard (by decide +kernel)).1.trans (by decide +kernel)
  · exact (lowers .downgrade rfl).1.trans (by decide +kernel)

end Interlock.ReadWrite
