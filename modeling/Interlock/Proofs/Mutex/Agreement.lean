import Interlock.Mutex.Sharing
import Mathlib.Data.List.Induction
import Mathlib.Tactic.Common

/-!
# The mutex that tracks its owner answers like one that checks

The recorded token is a copy of who holds the mutex, and it is late: for a moment after the mutex
was taken, and again before it is let go, the holder is not recorded (`Place.isUnrecorded`).  Only
other threads can look at the token in these moments, and to them it says what it would say anyway:
that it is not theirs.  So each call can be put to an error-checking mutex at one of its steps
(`Twin.Step.put`), and both answer alike (`Twin.Sound`).
-/

namespace Interlock.Mutex

open ReadWrite (Tokens)
open Sharing (Move put put_self put_of_ne)

/-! ## One call at a time -/

namespace ErrorChecking

variable {thread t : Nat} {c : ErrorChecking}

theorem ask_lock_of_free (h : c.owner = none) :
    c.ask thread .lock = some (.done, ⟨some thread⟩) := by
  simp [ask, lock, blocks, answer, h, PrimitiveError.check, Answer.ofUnit]

theorem ask_lock_of_own (h : c.owner = some thread) :
    c.ask thread .lock = some (.failed (.misuse "pthread_mutex_lock" 35), c) := by
  simp [ask, lock, blocks, answer, h, PrimitiveError.check, Answer.ofUnit, Errno.edeadlk,
    PrimitiveError.isMisuseCode, Op.symbol]

theorem ask_lock_of_other (h : c.owner = some t) (other : t ≠ thread) :
    c.ask thread .lock = none := by
  simp [ask, lock, blocks, h, other]

theorem ask_tryLock_of_free (h : c.owner = none) :
    c.ask thread .tryLock = some (.done, ⟨some thread⟩) := by
  simp [ask, tryLock, answer, h, Op.read, Errno.ebusy, PrimitiveError.check, Answer.ofBool]

theorem ask_tryLock_of_held (h : c.owner = some t) : c.ask thread .tryLock = some (.held, c) := by
  simp [ask, tryLock, answer, h, Op.read, Answer.ofBool]

theorem ask_unlock_of_own (h : c.owner = some thread) :
    c.ask thread .unlock = some (.done, ⟨none⟩) := by
  simp [ask, unlock, answer, h, PrimitiveError.check, Answer.ofUnit]

theorem ask_unlock_of_not_own (h : c.owner ≠ some thread) :
    c.ask thread .unlock = some (.failed (.misuse "pthread_mutex_unlock" 1), c) := by
  simp [ask, unlock, answer, h, PrimitiveError.check, Answer.ofUnit, Errno.eperm,
    PrimitiveError.isMisuseCode, Op.symbol]

end ErrorChecking

/-- Answers that say the same; the call of a misuse is named differently. -/
inductive Answer.Agrees : Answer → Answer → Prop where
  | done : Agrees .done .done
  | held : Agrees .held .held
  | misuse (op op' : String) (code : Int) :
      Agrees (.failed (.misuse op code)) (.failed (.misuse op' code))

/-- The token of the thread that holds a mutex, 0 if none does. -/
def tokenOf (tokens : Tokens) : Option Nat → Nat
  | none => 0
  | some thread => tokens.of thread

/-- The token tells who holds the mutex. -/
theorem tokenOf_eq_iff {tokens : Tokens} {holder : Option Nat} {thread : Nat} :
    tokenOf tokens holder = tokens.of thread ↔ holder = some thread := by
  cases holder with
  | none => simpa [tokenOf] using (tokens.ne_zero thread).symm
  | some t => exact ⟨fun same => congrArg some (tokens.inj same), fun same => by rw [same, tokenOf]⟩

/-- Two mutexes between calls that are held by the same thread, or both free. -/
structure Alike (tokens : Tokens) (m : OwnerTracked) (c : ErrorChecking) : Prop where
  taken : m.taken = c.owner.isSome
  owner : m.owner = tokenOf tokens c.owner

namespace Alike

variable {tokens : Tokens} {m : OwnerTracked} {c : ErrorChecking}

theorem owner_eq_iff (h : Alike tokens m c) (thread : Nat) :
    m.owner = tokens.of thread ↔ c.owner = some thread := by
  rw [h.owner, tokenOf_eq_iff]

/-- Called alike, both are blocked, or both answer alike. -/
theorem ask (h : Alike tokens m c) (thread : Nat) (request : Request) :
    Option.Rel (fun x y => x.1.Agrees y.1 ∧ Alike tokens x.2 y.2)
      (m.ask (tokens.of thread) request) (c.ask thread request) := by
  have mine := h.owner_eq_iff thread
  have taken := h.taken
  cases request with
  | lock =>
    simp only [OwnerTracked.ask, OwnerTracked.lock, mine, taken]
    rcases holder : c.owner with _ | t
    · rw [ErrorChecking.ask_lock_of_free holder]
      exact .some ⟨.done, rfl, rfl⟩
    · by_cases own : t = thread
      · subst own
        rw [if_pos rfl, ErrorChecking.ask_lock_of_own holder]
        exact .some ⟨.misuse _ _ 35, h⟩
      · have foreign : ¬ some t = some thread := fun same => own (Option.some.inj same)
        rw [if_neg foreign, ErrorChecking.ask_lock_of_other holder own]
        exact .none
  | tryLock =>
    simp only [OwnerTracked.ask, OwnerTracked.tryLock, taken]
    rcases holder : c.owner with _ | t
    · rw [ErrorChecking.ask_tryLock_of_free holder]
      exact .some ⟨.done, rfl, rfl⟩
    · rw [ErrorChecking.ask_tryLock_of_held holder]
      exact .some ⟨.held, h⟩
  | unlock =>
    simp only [OwnerTracked.ask, OwnerTracked.unlock, mine]
    by_cases own : c.owner = some thread
    · rw [if_pos own, ErrorChecking.ask_unlock_of_own own]
      exact .some ⟨.done, rfl, rfl⟩
    · rw [if_neg own, ErrorChecking.ask_unlock_of_not_own own]
      exact .some ⟨.misuse _ _ 1, h⟩

end Alike

/-- The answers to calls made one after the other, and the mutex after them.  A call that is blocked
is not made, and none stands for its answer. -/
def answers {M : Type} (ask : Nat → M → Request → Option (Answer × M)) :
    List (Nat × Request) → M → List (Option Answer) × M
  | [], m => ([], m)
  | (thread, request) :: calls, m =>
    match ask thread m request with
    | none => ((none :: (answers ask calls m).1), (answers ask calls m).2)
    | some (r, m') => ((some r :: (answers ask calls m').1), (answers ask calls m').2)

/-- Call by call both mutexes answer alike. -/
theorem answers_agree {tokens : Tokens} {m : OwnerTracked} {c : ErrorChecking}
    (h : Alike tokens m c) (calls : List (Nat × Request)) :
    List.Forall₂ (Option.Rel Answer.Agrees)
        (answers (fun thread m => m.ask (tokens.of thread)) calls m).1
        (answers ErrorChecking.ask calls c).1 ∧
      Alike tokens (answers (fun thread m => m.ask (tokens.of thread)) calls m).2
        (answers ErrorChecking.ask calls c).2 := by
  induction calls generalizing m c with
  | nil => exact ⟨.nil, h⟩
  | cons call calls ih =>
    obtain ⟨thread, request⟩ := call
    have step := h.ask thread request
    simp only [answers]
    generalize m.ask (tokens.of thread) request = x at step ⊢
    generalize c.ask thread request = y at step ⊢
    cases step with
    | none =>
      obtain ⟨replies, alike⟩ := ih h
      exact ⟨.cons .none replies, alike⟩
    | some both =>
      obtain ⟨agrees, next⟩ := both
      obtain ⟨replies, alike⟩ := ih next
      exact ⟨.cons (.some agrees) replies, alike⟩

/-- A call that does not come off changes nothing. -/
theorem OwnerTracked.unchanged_of_ask {me : Nat} {m m' : OwnerTracked} {request : Request}
    {answer : Answer} (h : m.ask me request = some (answer, m')) (failed : answer ≠ .done) :
    m' = m := by
  cases request with
  | lock =>
    simp only [ask, lock] at h
    split at h
    · exact (Prod.mk.inj (Option.some.inj h)).2.symm
    · split at h
      · cases h
      · exact absurd (Prod.mk.inj (Option.some.inj h)).1.symm failed
  | tryLock =>
    simp only [ask, tryLock] at h
    split at h
    · exact (Prod.mk.inj (Option.some.inj h)).2.symm
    · exact absurd (Prod.mk.inj (Option.some.inj h)).1.symm failed
  | unlock =>
    simp only [ask, unlock] at h
    split at h
    · exact absurd (Prod.mk.inj (Option.some.inj h)).1.symm failed
    · exact (Prod.mk.inj (Option.some.inj h)).2.symm

/-- The steps of a call that no other thread disturbs amount to the call: three take it to its end,
or to where it is blocked. -/
theorem OwnerTracked.walk_start (me : Nat) (m : OwnerTracked) (request : Request) :
    Place.walk me 3 (m, request.start) =
      match m.ask me request with
      | some (answer, m') => (m', .idle (some answer))
      | none => (m, .acquiring) := by
  obtain ⟨taken, owner⟩ := m
  cases request with
  | lock =>
    by_cases own : owner = me <;> cases taken <;>
      simp [Place.walk, Place.step, Request.start, ask, lock, own, Answer.ofUnit]
  | tryLock =>
    cases taken <;> simp [Place.walk, Place.step, Request.start, ask, tryLock, Answer.ofBool]
  | unlock =>
    by_cases own : owner = me <;>
      simp [Place.walk, Place.step, Request.start, ask, unlock, own, Answer.ofUnit]

/-! ## Threads in any order -/

/-- The places at which a thread holds the mutex and its token is not recorded. -/
def Place.isUnrecorded : Place → Bool
  | .recording => true
  | .releasing => true
  | _ => false

/-- What is known of the call that a thread makes, or made last. -/
structure Account where
  /-- The call, as long as it has not been put to the error-checking mutex. -/
  pending : Option Request := none
  /-- What that mutex answered. -/
  answer : Option Answer := none
  /-- Whether the call has changed the mutex that tracks its owner. -/
  touched : Bool := false
  deriving DecidableEq, Repr

/-- Threads that share a mutex, and an error-checking mutex beside it. -/
structure Twin where
  sharing : Sharing := {}
  checked : ErrorChecking := {}
  accounts : Nat → Account := fun _ => {}

namespace Twin

/-- What a thread changes by its next step. -/
def touches (tokens : Tokens) (thread : Nat) (s : Sharing) : Bool :=
  decide ((s.move tokens (.step thread)).mutex ≠ s.mutex)

/-- A move, and what becomes of the error-checking mutex.  A call is put to that mutex once, at some
step between its beginning and its end. -/
inductive Step (tokens : Tokens) : Move → Twin → Twin → Prop where
  | start {w : Twin} {thread : Nat} {request : Request}
      (idle : (w.sharing.places thread).isIdle = true) :
      Step tokens (.start thread request) w
        { w with
          sharing := w.sharing.move tokens (.start thread request)
          accounts := put thread { pending := some request } w.accounts }
  | ignored {w : Twin} {thread : Nat} {request : Request}
      (busy : (w.sharing.places thread).isIdle = false) :
      Step tokens (.start thread request) w
        { w with sharing := w.sharing.move tokens (.start thread request) }
  | silent {w : Twin} {thread : Nat} {account : Account}
      (same : account = { w.accounts thread with
        touched := (w.accounts thread).touched || touches tokens thread w.sharing }) :
      Step tokens (.step thread) w
        { w with
          sharing := w.sharing.move tokens (.step thread)
          accounts := put thread account w.accounts }
  | put {w : Twin} {thread : Nat} {request : Request} {answer : Answer} {checked : ErrorChecking}
      (pending : (w.accounts thread).pending = some request)
      (asked : w.checked.ask thread request = some (answer, checked)) :
      Step tokens (.step thread) w
        { sharing := w.sharing.move tokens (.step thread)
          checked
          accounts := put thread
            { answer := some answer
              touched := (w.accounts thread).touched || touches tokens thread w.sharing }
            w.accounts }

/-- Where the moves lead that were made from the beginning on, first to last. -/
inductive Run (tokens : Tokens) : List Move → Twin → Prop where
  | start : Run tokens [] {}
  | move {moves : List Move} {w w' : Twin} {m : Move} (run : Run tokens moves w)
      (step : Step tokens m w w') : Run tokens (moves ++ [m]) w'

/-- The token that is to be found recorded while a thread holds the mutex, or none does. -/
def recorded (tokens : Tokens) (places : Nat → Place) : Option Nat → Nat
  | none => 0
  | some thread => if (places thread).isUnrecorded then 0 else tokens.of thread

/-- What the place of a thread says about its call, and about the thread if it holds the
error-checking mutex. -/
def Stands (holds : Prop) : Place → Account → Prop
  | .claiming, a => a = { pending := some .lock }
  | .acquiring, a => a = { pending := some .lock } ∧ ¬ holds
  | .trying, a => a = { pending := some .tryLock }
  | .recording, a => holds ∧ a.pending = none ∧ a.answer = some .done
  | .checking, a => a = { pending := some .unlock }
  | .clearing, a => holds ∧ a.pending = some .unlock
  | .releasing, a => holds ∧ a.pending = some .unlock
  | .idle none, a => a.pending = none
  | .idle (some answer), a => a.pending = none ∧
      (∃ checked, a.answer = some checked ∧ answer.Agrees checked) ∧
      (answer ≠ .done → a.touched = false)

/-- The two mutexes are held by the same thread, and every call stands as its place says. -/
structure Sound (tokens : Tokens) (w : Twin) : Prop where
  taken : w.sharing.mutex.taken = w.checked.owner.isSome
  owner : w.sharing.mutex.owner = recorded tokens w.sharing.places w.checked.owner
  stands : ∀ thread,
    Stands (w.checked.owner = some thread) (w.sharing.places thread) (w.accounts thread)

section Recorded

variable {tokens : Tokens} {places : Nat → Place} {thread : Nat} {place : Place}

/-- A thread that stays recorded, or unrecorded, changes nothing that is recorded. -/
theorem recorded_put (holder : Option Nat)
    (same : place.isUnrecorded = (places thread).isUnrecorded) :
    recorded tokens (put thread place places) holder = recorded tokens places holder := by
  cases holder with
  | none => rfl
  | some t =>
    by_cases self : t = thread
    · subst self
      simp [recorded, same]
    · simp [recorded, put_of_ne self]

theorem recorded_put_self (tokens : Tokens) (places : Nat → Place) (thread : Nat) (place : Place) :
    recorded tokens (put thread place places) (some thread) =
      if place.isUnrecorded then 0 else tokens.of thread := by
  rw [recorded, put_self]

/-- A thread that is recorded while it holds the mutex finds its own token exactly if it does. -/
theorem recorded_eq_iff {holder : Option Nat} (h : (places thread).isUnrecorded = false) :
    recorded tokens places holder = tokens.of thread ↔ holder = some thread := by
  have nonzero : ¬ 0 = tokens.of thread := (tokens.ne_zero thread).symm
  cases holder with
  | none => simpa [recorded] using nonzero
  | some t =>
    constructor
    · intro found
      by_cases late : (places t).isUnrecorded = true
      · rw [recorded, if_pos late] at found
        exact absurd found nonzero
      · rw [recorded, if_neg late] at found
        exact congrArg some (tokens.inj found)
    · intro same
      rw [same, recorded, h]
      rfl

end Recorded

namespace Sound

variable {tokens : Tokens} {w : Twin} {thread : Nat} {m : OwnerTracked} {place place' : Place}

theorem move_step {s : Sharing} (here : s.places thread = place)
    (next : place.step (tokens.of thread) s.mutex = (m, place')) :
    s.move tokens (.step thread) = ⟨m, put thread place' s.places⟩ := by
  simp only [Sharing.move, here, next]

/-- Other threads stand as they did if none of them takes or loses the mutex. -/
theorem stands_put (h : Sound tokens w) {checked : ErrorChecking} {account : Account}
    (others : ∀ t, t ≠ thread → (checked.owner = some t ↔ w.checked.owner = some t))
    (stands : Stands (checked.owner = some thread) place account) (t : Nat) :
    Stands (checked.owner = some t) (put thread place w.sharing.places t)
      (put thread account w.accounts t) := by
  by_cases self : t = thread
  · subst self
    rwa [put_self, put_self]
  · rw [put_of_ne self, put_of_ne self, others t self]
    exact h.stands t

/-- A step that both mutexes take no notice of keeps them in step. -/
theorem silent (h : Sound tokens w) (here : w.sharing.places thread = place)
    (next : place.step (tokens.of thread) w.sharing.mutex = (m, place'))
    (taken : m.taken = w.sharing.mutex.taken)
    (owner : m.owner = recorded tokens (put thread place' w.sharing.places) w.checked.owner)
    (stands : Stands (w.checked.owner = some thread) place' { w.accounts thread with
      touched := (w.accounts thread).touched || decide (m ≠ w.sharing.mutex) }) :
    ∃ w', Step tokens (.step thread) w w' ∧ Sound tokens w' := by
  refine ⟨_, .silent rfl, ?_, ?_, ?_⟩
  · rw [move_step here next]
    exact taken.trans h.taken
  · rw [move_step here next]
    exact owner
  · rw [touches, move_step here next]
    exact h.stands_put (fun _ _ => Iff.rfl) stands

/-- A step at which the call is put to the other mutex keeps both in step. -/
theorem put (h : Sound tokens w) (here : w.sharing.places thread = place)
    (next : place.step (tokens.of thread) w.sharing.mutex = (m, place'))
    {request : Request} {answer : Answer} {checked : ErrorChecking}
    (pending : (w.accounts thread).pending = some request)
    (asked : w.checked.ask thread request = some (answer, checked))
    (others : ∀ t, t ≠ thread → (checked.owner = some t ↔ w.checked.owner = some t))
    (taken : m.taken = checked.owner.isSome)
    (owner : m.owner = recorded tokens (Sharing.put thread place' w.sharing.places) checked.owner)
    (stands : Stands (checked.owner = some thread) place'
      { answer := some answer
        touched := (w.accounts thread).touched || decide (m ≠ w.sharing.mutex) }) :
    ∃ w', Step tokens (.step thread) w w' ∧ Sound tokens w' := by
  refine ⟨_, .put pending asked, ?_, ?_, ?_⟩
  · rw [move_step here next]
    exact taken
  · rw [move_step here next]
    exact owner
  · rw [touches, move_step here next]
    exact h.stands_put others stands

/-- A thread begins a call when its last one has ended. -/
theorem start (h : Sound tokens w) (thread : Nat) (request : Request) :
    ∃ w', Step tokens (.start thread request) w w' ∧ Sound tokens w' := by
  rcases idle : (w.sharing.places thread).isIdle with _ | _
  · refine ⟨_, .ignored idle, ?_⟩
    have still : w.sharing.move tokens (.start thread request) = w.sharing := by
      simp [Sharing.move, idle]
    rw [still]
    exact ⟨h.taken, h.owner, h.stands⟩
  · refine ⟨_, .start idle, ?_⟩
    have begun : w.sharing.move tokens (.start thread request) =
        { w.sharing with places := Sharing.put thread request.start w.sharing.places } := by
      simp [Sharing.move, idle]
    have unchanged : request.start.isUnrecorded = (w.sharing.places thread).isUnrecorded := by
      have before : (w.sharing.places thread).isUnrecorded = false := by
        revert idle
        cases w.sharing.places thread <;> simp [Place.isIdle, Place.isUnrecorded]
      rw [before]
      cases request <;> rfl
    rw [begun]
    refine ⟨h.taken, h.owner.trans (recorded_put _ unchanged).symm, ?_⟩
    refine h.stands_put (fun _ _ => Iff.rfl) ?_
    cases request <;> rfl

/-- A step that changes nothing is not to be seen from the error-checking mutex. -/
theorem proceed (h : Sound tokens w) (here : w.sharing.places thread = place)
    (next : place.step (tokens.of thread) w.sharing.mutex = (w.sharing.mutex, place'))
    (same : place'.isUnrecorded = place.isUnrecorded)
    (stands : Stands (w.checked.owner = some thread) place' (w.accounts thread)) :
    ∃ w', Step tokens (.step thread) w w' ∧ Sound tokens w' := by
  refine h.silent here next rfl ?_ ?_
  · rw [h.owner, recorded_put _ (here ▸ same)]
  · simpa using stands

/-- A call that is refused by both mutexes changes neither. -/
theorem refuse (h : Sound tokens w) {request : Request} {answer checked : Answer}
    (here : w.sharing.places thread = place)
    (next : place.step (tokens.of thread) w.sharing.mutex =
      (w.sharing.mutex, .idle (some answer)))
    (same : place.isUnrecorded = false)
    (account : w.accounts thread = { pending := some request })
    (asked : w.checked.ask thread request = some (checked, w.checked))
    (agrees : answer.Agrees checked) :
    ∃ w', Step tokens (.step thread) w w' ∧ Sound tokens w' := by
  have unchanged : (Place.idle (some answer)).isUnrecorded =
      (w.sharing.places thread).isUnrecorded := by
    rw [here, same]
    rfl
  refine h.put here next (by rw [account]) asked (fun _ _ => Iff.rfl) h.taken ?_
    ⟨rfl, ⟨checked, rfl, agrees⟩, fun _ => ?_⟩
  · rw [h.owner, recorded_put _ unchanged]
  · simp [account]

/-- A free mutex is taken by the thread that asks for it; its token is not recorded yet. -/
theorem take (h : Sound tokens w) {request : Request} (here : w.sharing.places thread = place)
    (next : place.step (tokens.of thread) w.sharing.mutex =
      ({ w.sharing.mutex with taken := true }, .recording))
    (pending : (w.accounts thread).pending = some request) (free : w.checked.owner = none)
    (asked : w.checked.ask thread request = some (.done, ⟨some thread⟩)) :
    ∃ w', Step tokens (.step thread) w w' ∧ Sound tokens w' := by
  refine h.put here next pending asked ?_ rfl ?_ ⟨rfl, rfl, rfl⟩
  · intro t other
    rw [free]
    exact ⟨fun same => absurd (Option.some.inj same).symm other, nofun⟩
  · rw [h.owner, free, recorded_put_self]
    rfl

/-- Each step of a thread is either not to be seen, or puts its call to the error-checking mutex: a
refusal where it is decided, an acquisition where the mutex is taken, and a release where it is let
go. -/
theorem step (h : Sound tokens w) (thread : Nat) :
    ∃ w', Step tokens (.step thread) w w' ∧ Sound tokens w' := by
  have stands := h.stands thread
  -- outside the moments in which its token is not recorded, a thread can trust it
  have mine (recordable : (w.sharing.places thread).isUnrecorded = false) :
      w.sharing.mutex.owner = tokens.of thread ↔ w.checked.owner = some thread := by
    rw [h.owner, recorded_eq_iff recordable]
  have held (taken : w.sharing.mutex.taken = true) : ∃ t, w.checked.owner = some t :=
    Option.isSome_iff_exists.1 (h.taken ▸ taken)
  have free (untaken : ¬ w.sharing.mutex.taken = true) : w.checked.owner = none :=
    Option.not_isSome_iff_eq_none.1 (h.taken ▸ untaken)
  rcases here : w.sharing.places thread with _ | _ | _ | _ | _ | _ | _ | last <;>
    rw [here] at stands mine
  case claiming =>
    by_cases own : w.checked.owner = some thread
    · exact h.refuse here (if_pos ((mine rfl).2 own)) rfl stands
        (ErrorChecking.ask_lock_of_own own) (.misuse _ _ _)
    · exact h.proceed here (if_neg (mt (mine rfl).1 own)) rfl ⟨stands, own⟩
  case acquiring =>
    obtain ⟨account, foreign⟩ := stands
    by_cases taken : w.sharing.mutex.taken = true
    · exact h.proceed here (if_pos taken) rfl ⟨account, foreign⟩
    · exact h.take here (if_neg taken) (by rw [account]) (free taken)
        (ErrorChecking.ask_lock_of_free (free taken))
  case trying =>
    have account : w.accounts thread = { pending := some .tryLock } := stands
    by_cases taken : w.sharing.mutex.taken = true
    · obtain ⟨t, holder⟩ := held taken
      exact h.refuse here (if_pos taken) rfl account (ErrorChecking.ask_tryLock_of_held holder)
        .held
    · exact h.take here (if_neg taken) (by rw [account]) (free taken)
        (ErrorChecking.ask_tryLock_of_free (free taken))
  case recording =>
    obtain ⟨own, pending, answered⟩ := stands
    refine h.silent here rfl rfl ?_ ⟨pending, ⟨_, answered, .done⟩, fun failed => absurd rfl failed⟩
    rw [own, recorded_put_self]
    rfl
  case checking =>
    have account : w.accounts thread = { pending := some .unlock } := stands
    by_cases own : w.checked.owner = some thread
    · exact h.proceed here (if_pos ((mine rfl).2 own)) rfl ⟨own, by rw [account]⟩
    · exact h.refuse here (if_neg (mt (mine rfl).1 own)) rfl account
        (ErrorChecking.ask_unlock_of_not_own own) (.misuse _ _ _)
  case clearing =>
    obtain ⟨own, pending⟩ := stands
    refine h.silent here rfl rfl ?_ ⟨own, pending⟩
    rw [own, recorded_put_self]
    rfl
  case releasing =>
    obtain ⟨own, pending⟩ := stands
    refine h.put here rfl pending (ErrorChecking.ask_unlock_of_own own) ?_ rfl ?_
      ⟨rfl, ⟨_, rfl, .done⟩, fun failed => absurd rfl failed⟩
    · intro t other
      rw [own]
      exact ⟨nofun, fun same => absurd (Option.some.inj same).symm other⟩
    · rw [h.owner, own]
      simp [recorded, here, Place.isUnrecorded]
  case idle => exact h.proceed here rfl rfl stands

end Sound

theorem Sound.begin (tokens : Tokens) : Sound tokens {} := ⟨rfl, rfl, fun _ => rfl⟩

/-- Every run of threads on the mutex that tracks its owner can be followed. -/
theorem exists_sound (tokens : Tokens) (moves : List Move) :
    ∃ w, Run tokens moves w ∧ Sound tokens w := by
  induction moves using List.reverseRecOn with
  | nil => exact ⟨{}, .start, .begin tokens⟩
  | append_singleton moves m ih =>
    obtain ⟨w, run, sound⟩ := ih
    cases m with
    | start thread request =>
      obtain ⟨w', step, sound'⟩ := sound.start thread request
      exact ⟨w', run.move step, sound'⟩
    | step thread =>
      obtain ⟨w', step, sound'⟩ := sound.step thread
      exact ⟨w', run.move step, sound'⟩

theorem Run.sharing_eq {tokens : Tokens} {moves : List Move} {w : Twin} (run : Run tokens moves w) :
    w.sharing = Sharing.run tokens moves := by
  induction run with
  | start => rfl
  | move _ step ih =>
    rw [Sharing.run, List.foldl_append, ← Sharing.run, ← ih]
    cases step <;> rfl

end Twin

/-- **The mutex that tracks its owner answers like an error-checking one.**  That one refuses a
second `lock` of its holder with 35, an `unlock` of any other thread with 1, and tells whoever tries
it while it is held that it is.  Calls made one after the other, in any order and by any number of
threads, are answered alike by both or blocked by both; one that does not come off changes nothing;
and after each of them the recorded token is that of the holder, and 0 while the mutex is free.

A call is made of steps, and those of one call amount to it (`walk_start`).  When the steps of all
threads come in any order, each call can be put to the error-checking mutex once, between its
beginning and its end, and is answered alike; one that does not come off changed nothing in any of
its steps; no thread waits for a mutex that it holds itself; and the token is that of the holder
whenever no thread has just taken the mutex or is about to let it go. -/
theorem OwnerTracked.faithful (tokens : Tokens) :
    (∀ (thread : Nat) (c : ErrorChecking),
      (c.owner = some thread →
        c.ask thread .lock = some (.failed (.misuse "pthread_mutex_lock" 35), c)) ∧
      (c.owner ≠ some thread →
        c.ask thread .unlock = some (.failed (.misuse "pthread_mutex_unlock" 1), c)) ∧
      (c.owner ≠ none → c.ask thread .tryLock = some (.held, c))) ∧
    (∀ calls : List (Nat × Request),
      let own := answers (fun thread m => m.ask (tokens.of thread)) calls ({} : OwnerTracked)
      let checked := answers ErrorChecking.ask calls {}
      List.Forall₂ (Option.Rel Answer.Agrees) own.1 checked.1 ∧ Alike tokens own.2 checked.2) ∧
    (∀ (me : Nat) (m : OwnerTracked) (request : Request),
      (∀ answer m', m.ask me request = some (answer, m') → answer ≠ .done → m' = m) ∧
      Place.walk me 3 (m, request.start) =
        match m.ask me request with
        | some (answer, m') => (m', .idle (some answer))
        | none => (m, .acquiring)) ∧
    ∀ moves : List Move, ∃ w : Twin, Twin.Run tokens moves w ∧
      w.sharing = Sharing.run tokens moves ∧
      (∀ thread answer, w.sharing.places thread = .idle (some answer) →
        (∃ checked, (w.accounts thread).answer = some checked ∧ answer.Agrees checked) ∧
        (answer ≠ .done → (w.accounts thread).touched = false)) ∧
      (∀ thread, w.sharing.places thread = .acquiring → w.checked.owner ≠ some thread) ∧
      w.sharing.mutex.owner = Twin.recorded tokens w.sharing.places w.checked.owner ∧
      ((∀ thread, (w.sharing.places thread).isUnrecorded = false) →
        Alike tokens w.sharing.mutex w.checked) := by
  refine ⟨fun thread c => ⟨ErrorChecking.ask_lock_of_own, ErrorChecking.ask_unlock_of_not_own, ?_⟩,
    fun calls => answers_agree ⟨rfl, rfl⟩ calls,
    fun me m request => ⟨fun _ _ => unchanged_of_ask, walk_start me m request⟩, ?_⟩
  · intro held
    obtain ⟨t, holder⟩ := Option.ne_none_iff_exists'.1 held
    exact ErrorChecking.ask_tryLock_of_held holder
  · intro moves
    obtain ⟨w, run, sound⟩ := Twin.exists_sound tokens moves
    refine ⟨w, run, run.sharing_eq, ?_, ?_, sound.owner, ?_⟩
    · intro thread answer idle
      have stands := sound.stands thread
      rw [idle] at stands
      exact ⟨stands.2.1, stands.2.2⟩
    · intro thread waiting
      have stands := sound.stands thread
      rw [waiting] at stands
      exact stands.2
    · intro settled
      refine ⟨sound.taken, ?_⟩
      rw [sound.owner]
      cases w.checked.owner with
      | none => rfl
      | some t => rw [Twin.recorded, settled t]; rfl

/-- Two threads quarrel over a mutex: one locks it twice, the other tries it, unlocks it and is left
waiting, and one unlocks it once too often.  And while one has taken the mutex and is not recorded
yet, the other may not unlock it. -/
theorem OwnerTracked.faithful_of_quarrel :
    let tokens := Tokens.numbered
    let calls : List (Nat × Request) := [(0, .lock), (0, .lock), (1, .tryLock), (0, .tryLock),
      (1, .unlock), (1, .lock), (0, .unlock), (1, .lock), (0, .unlock)]
    let own := answers (fun thread m => m.ask (tokens.of thread)) calls ({} : OwnerTracked)
    let moves : List Move := [.start 0 .lock, .step 0, .step 0, .start 1 .unlock, .step 1]
    own.1 = [some .done, some (.failed (.misuse "mutex_lock" 35)), some .held, some .held,
      some (.failed (.misuse "mutex_unlock" 1)), none, some .done, some .done,
      some (.failed (.misuse "mutex_unlock" 1))] ∧
    own.2 = ⟨true, 2⟩ ∧
    List.Forall₂ (Option.Rel Answer.Agrees) own.1 (answers ErrorChecking.ask calls {}).1 ∧
    ∃ w : Twin, Twin.Run tokens moves w ∧ w.sharing.places 0 = .recording ∧
      ∃ checked, (w.accounts 1).answer = some checked ∧
        Answer.Agrees (.failed (.misuse "mutex_unlock" 1)) checked := by
  intro tokens calls own moves
  have all := OwnerTracked.faithful tokens
  obtain ⟨w, run, sharing, answered, -⟩ := all.2.2.2 moves
  have idle : w.sharing.places 1 = .idle (some (.failed (.misuse "mutex_unlock" 1))) := by
    rw [sharing]
    rfl
  refine ⟨by decide, by decide, (all.2.1 calls).1, w, run, ?_, (answered 1 _ idle).1⟩
  rw [sharing]
  rfl

end Interlock.Mutex
