import Interlock.Proofs.Exclusive.Operations
import Mathlib.Data.List.TakeWhile
import Mathlib.Data.UInt

/-!
# The exclusive lock's counters

The counters of the lock are an account of what its mutex answered.  `spurious` counts the failures
that may pass; `spin` counts the tries made after the mutex was found in other hands, and every
failure that was absorbed, so that a try of that kind which fails is counted twice; `busy` counts
the operations that found the mutex in other hands.  All three can be read off the calls of an
operation and the fault that ended it: `State.raised_operate` says so of one operation, phase by
phase, and `State.Recorded.counted` sums up a course.  The operations of a run since its last
`clear` are told by its steps (`Session.recorded`).
-/

namespace Interlock

namespace Exclusive

open Mutex (Call Op)

/-! ## What the calls of an operation amount to -/

/-- Whether the first try that failed neither for a reason that may pass nor by misuse found the
mutex in other hands. -/
def foundBusy (made : List Call) : Bool :=
  made.find? (fun c => c.op = .tryLock ∧ c.word ≠ .passing ∧ c.word ≠ .misuse) = some ⟨.tryLock, 16⟩

/-- The tries made after the mutex was first found in other hands. -/
def retries (made : List Call) : Nat :=
  (made.dropWhile (· ≠ ⟨.tryLock, 16⟩)).tail.countP (·.op = .tryLock)

/-- Whether an operation failed because it had absorbed all the failures that it may. -/
def Fault.isExhausted : Fault → Bool
  | .exhausted _ => true
  | _ => false

/-- The failures that an operation absorbed: all that may pass, but for the one past the bound. -/
def absorbed (made : List Call) (fault : Option Fault) : Nat :=
  passing made - if fault.any Fault.isExhausted then 1 else 0

theorem absorbed_none (made : List Call) : absorbed made none = passing made := by
  simp [absorbed]

theorem passing_singleton (c : Call) : passing [c] = if c.word = .passing then 1 else 0 := by
  simp [passing, List.countP_singleton]

section Unbusy

variable {made earlier later : List Call}

theorem foundBusy_of_unbusy (h : ∀ c ∈ made, c ≠ ⟨.tryLock, 16⟩) : foundBusy made = false :=
  decide_eq_false fun found => h _ (List.mem_of_find?_eq_some found) rfl

theorem retries_of_unbusy (h : ∀ c ∈ made, c ≠ ⟨.tryLock, 16⟩) : retries made = 0 := by
  have all : made.dropWhile (· ≠ ⟨.tryLock, 16⟩) = [] :=
    List.dropWhile_eq_nil_iff.2 fun c hc => decide_eq_true (h c hc)
  rw [retries, all]
  rfl

/-- A try finds the mutex in other hands if only passing failures came before. -/
theorem foundBusy_of_passing (h : ∀ c ∈ earlier, c.word = .passing) :
    foundBusy (earlier ++ ⟨.tryLock, 16⟩ :: later) = true := by
  have none : earlier.find? (fun c => c.op = .tryLock ∧ c.word ≠ .passing ∧ c.word ≠ .misuse) =
      none := List.find?_eq_none.2 fun c hc => by simp [h c hc]
  refine decide_eq_true ?_
  rw [List.find?_append, none, Option.none_or]
  exact List.find?_cons_of_pos rfl

/-- After the mutex was found in other hands every further try is a retry. -/
theorem retries_of_passing (h : ∀ c ∈ earlier, c.word = .passing) :
    retries (earlier ++ ⟨.tryLock, 16⟩ :: later) = later.countP (·.op = .tryLock) := by
  have unbusy : ∀ c ∈ earlier, decide (c ≠ ⟨.tryLock, 16⟩) = true := by
    intro c hc
    refine decide_eq_true ?_
    rintro rfl
    exact Mutex.Word.noConfusion (word_busy.symm.trans (h _ hc))
  rw [retries, List.dropWhile_append_of_pos unbusy, List.dropWhile_cons_of_neg (by simp),
    List.tail_cons]

end Unbusy

namespace Decides

variable {budget : Nat} {made earlier : List Call} {attempt : Attempt}

/-- An operation fails once more than it can absorb exactly if that is what ends it. -/
theorem passing_le (h : Decides budget made attempt) :
    passing made ≤ budget + 1 ∧
      (passing made = budget + 1 ↔ attempt.fault.any Fault.isExhausted = true) := by
  cases h with
  | done _ within last | misuse _ within last | exhausted _ within last =>
    simp only [passing_append, passing_singleton, last, Attempt.fault, Option.any,
      Fault.isExhausted]
    simp
    omega
  | held _ within =>
    simp only [Attempt.fault, Option.any]
    simp
    omega

/-- What was absorbed before the last phase counts in full. -/
theorem absorbed_append (h : Decides budget made attempt) (earlier : List Call) :
    absorbed (earlier ++ made) attempt.fault = passing earlier + absorbed made attempt.fault := by
  have few := h.passing_le.2
  unfold absorbed
  rw [passing_append]
  split
  · next exhausted =>
    have some : passing made = budget + 1 := few.2 exhausted
    omega
  · omega

end Decides

namespace Persisted

variable {op : Op} {budget left : Nat} {made : List Call} {attempt : Attempt}

/-- A loop that was not ended by a mutex in other hands never found it there. -/
theorem unbusy (h : Persisted op budget made attempt) (unheld : ∀ left, attempt ≠ .held left) :
    ∀ c ∈ made, c ≠ ⟨.tryLock, 16⟩ := by
  have passed := h.absorbed
  rintro c hc rfl
  have decides := h.decides
  cases decides with
  | held _ _ => exact unheld _ rfl
  | done _ _ last | misuse _ _ last | exhausted _ _ last =>
    rw [List.dropLast_concat] at passed
    rcases List.mem_append.1 hc with before | latest
    · exact Mutex.Word.noConfusion (word_busy.symm.trans (passed _ before))
    · rw [← List.mem_singleton.1 latest, word_busy] at last
      cases last

/-- What an operation calls later does not change that its first try was refused. -/
theorem foundBusy_append (h : Persisted .tryLock budget made (.held left)) (later : List Call) :
    foundBusy (made ++ later) = true := by
  obtain ⟨earlier, rfl⟩ := List.getLast?_eq_some_iff.1 (h.busy left rfl)
  rw [List.append_assoc]
  exact foundBusy_of_passing (by simpa using h.absorbed)

/-- After a refused first try, the later tries are the retries. -/
theorem retries_append (h : Persisted .tryLock budget made (.held left)) (later : List Call) :
    retries (made ++ later) = later.countP (·.op = .tryLock) := by
  obtain ⟨earlier, rfl⟩ := List.getLast?_eq_some_iff.1 (h.busy left rfl)
  rw [List.append_assoc]
  exact retries_of_passing (by simpa using h.absorbed)

end Persisted

/-! ## What the phases of an operation count -/

/-- From `l` to `l'` the counters went up by so much. -/
structure Raised (busy spin spurious : Nat) (l l' : Exclusive) : Prop where
  busy : l'.busy.value = l.busy.value + .ofNat busy
  spin : l'.spin.value = l.spin.value + .ofNat spin
  spurious : l'.spurious.value = l.spurious.value + .ofNat spurious

namespace Raised

variable {busy spin spurious busy' spin' spurious' : Nat} {l l' l'' : Exclusive}

theorem refl (l : Exclusive) : Raised 0 0 0 l l :=
  ⟨(UInt64.add_zero _).symm, (UInt64.add_zero _).symm, (UInt64.add_zero _).symm⟩

/-- What is raised step by step adds up. -/
theorem trans (h : Raised busy spin spurious l l') (h' : Raised busy' spin' spurious' l' l'') :
    Raised (busy + busy') (spin + spin') (spurious + spurious') l l'' := by
  refine ⟨?_, ?_, ?_⟩
  · rw [h'.busy, h.busy, UInt64.ofNat_add, UInt64.add_assoc]
  · rw [h'.spin, h.spin, UInt64.ofNat_add, UInt64.add_assoc]
  · rw [h'.spurious, h.spurious, UInt64.ofNat_add, UInt64.add_assoc]

theorem congr (h : Raised busy spin spurious l l') (hbusy : busy = busy') (hspin : spin = spin')
    (hspurious : spurious = spurious') : Raised busy' spin' spurious' l l' := by
  subst hbusy hspin hspurious
  exact h

variable {σ : Type} {b : Mutex.Backend σ} {op : Op} {answer : Mutex.Answer} {s t : State σ}

theorem ask (h : s.ask b op = (answer, t)) : Raised 0 0 0 s.lock t.lock := by
  rw [State.lock_of_ask h]
  exact refl s.lock

theorem countBusy (s : State σ) : Raised 1 0 0 s.lock s.countBusy.lock :=
  ⟨rfl, (UInt64.add_zero _).symm, (UInt64.add_zero _).symm⟩

theorem countSpin (s : State σ) : Raised 0 1 0 s.lock s.countSpin.lock :=
  ⟨(UInt64.add_zero _).symm, rfl, (UInt64.add_zero _).symm⟩

theorem countSpurious (s : State σ) : Raised 0 0 1 s.lock s.countSpurious.lock :=
  ⟨(UInt64.add_zero _).symm, (UInt64.add_zero _).symm, rfl⟩

theorem absorb (e : PrimitiveError) (s : State σ) : Raised 0 1 1 s.lock (s.absorb e).lock :=
  (countSpurious s).trans (countSpin s.countSpurious)

end Raised

namespace State

variable {σ : Type} {b : Mutex.Backend σ} {s : State σ} {made : List Call}

/-- A call that is repeated raises `spurious` with each failure, and `spin` with each that it
absorbs. -/
theorem raised_persist {op : Op} (returns : op = .lock → ∀ world, b.blocks world = false)
    {left : Nat} (calls : Calls made s (s.persist b op left).2) :
    Raised 0 (absorbed made (s.persist b op left).1.fault) (passing made) s.lock
      (s.persist b op left).2.lock := by
  fun_induction persist b op left s generalizing made with
  | case1 left s t asked =>
    obtain ⟨c, -, only, read⟩ := calls_ask asked returns
    obtain rfl := calls.unique only
    refine (Raised.ask asked).congr rfl ?_ ?_ <;>
      simp [absorbed, passing_singleton, word_of_done read]
  | case2 left s t asked =>
    obtain ⟨c, -, only, read⟩ := calls_ask asked returns
    obtain rfl := calls.unique only
    obtain rfl := eq_busy_of_held read
    exact .ask asked
  | case3 s e t asked spurious =>
    obtain ⟨c, -, only, read⟩ := calls_ask asked returns
    obtain rfl := calls.unique only
    obtain ⟨word, -⟩ := (word_of_failed read).1 spurious
    refine ((Raised.ask asked).trans (.countSpurious t)).congr rfl ?_ ?_ <;>
      simp [absorbed, passing_singleton, word, fail, Attempt.fault, Fault.isExhausted]
  | case4 s e t asked spurious left ih =>
    obtain ⟨c, -, once, read⟩ := calls_ask asked returns
    obtain ⟨word, -⟩ := (word_of_failed read).1 spurious
    obtain ⟨more, -, later, persisted⟩ := persisted_persist b op returns left (t.absorb e)
    have once : Calls [c] s (t.absorb e) := once
    obtain rfl := calls.unique (once.trans later)
    refine (((Raised.ask asked).trans (.absorb e t)).trans (ih later)).congr rfl ?_ ?_
    · rw [persisted.decides.absorbed_append, passing_singleton, if_pos word]
    · rw [passing_append, passing_singleton, if_pos word]
  | case5 left s e t asked misuse =>
    obtain ⟨c, -, only, read⟩ := calls_ask asked returns
    obtain rfl := calls.unique only
    obtain ⟨word, -⟩ := (word_of_failed read).2 misuse
    refine (Raised.ask asked).congr rfl ?_ ?_ <;> simp [absorbed, passing_singleton, word]

/-- A try in this phase is counted before it is made, and once more if its failure is absorbed. -/
theorem raised_spinOn {spins left : Nat} (calls : Calls made s (s.spinOn b spins left).2) :
    Raised 0 (made.length + absorbed made (s.spinOn b spins left).1.fault) (passing made) s.lock
      (s.spinOn b spins left).2.lock := by
  fun_induction spinOn b spins left s generalizing made with
  | case1 left s =>
    obtain rfl := calls.unique (.refl s)
    exact .refl s.lock
  | case2 left spins s t asked =>
    obtain ⟨c, -, only, read⟩ := calls_ask asked (by simp)
    obtain rfl := calls.unique only
    refine ((Raised.countSpin s).trans (.ask asked)).congr rfl ?_ ?_ <;>
      simp [absorbed, passing_singleton, word_of_done read]
  | case3 spins left s t asked ih =>
    obtain ⟨c, -, once, read⟩ := calls_ask asked (by simp)
    obtain rfl := eq_busy_of_held read
    obtain ⟨more, later, spun⟩ := spun_spinOn b spins left t
    have once : Calls [⟨.tryLock, 16⟩] s t := once
    obtain rfl := calls.unique (once.trans later)
    refine (((Raised.countSpin s).trans (.ask asked)).trans (ih later)).congr rfl ?_ ?_
    · rw [spun.decides.absorbed_append, List.length_append, passing_singleton, word_busy]
      simp [Nat.add_assoc]
    · rw [passing_append, passing_singleton, word_busy]
      rfl
  | case4 spins s e t asked spurious =>
    obtain ⟨c, -, only, read⟩ := calls_ask asked (by simp)
    obtain rfl := calls.unique only
    obtain ⟨word, -⟩ := (word_of_failed read).1 spurious
    refine (((Raised.countSpin s).trans (.ask asked)).trans (.countSpurious t)).congr rfl ?_ ?_ <;>
      simp [absorbed, passing_singleton, word, fail, Attempt.fault, Fault.isExhausted]
  | case5 spins s e t asked spurious left ih =>
    obtain ⟨c, -, once, read⟩ := calls_ask asked (by simp)
    obtain ⟨word, -⟩ := (word_of_failed read).1 spurious
    obtain ⟨more, later, spun⟩ := spun_spinOn b spins left (t.absorb e)
    have once : Calls [c] s (t.absorb e) := once
    obtain rfl := calls.unique (once.trans later)
    have before := ((Raised.countSpin s).trans (.ask asked)).trans (.absorb e t)
    refine (before.trans (ih later)).congr rfl ?_ ?_
    · rw [spun.decides.absorbed_append, List.length_append, passing_singleton, if_pos word,
        List.length_singleton]
      omega
    · rw [passing_append, passing_singleton, if_pos word]
  | case6 left spins s e t asked misuse =>
    obtain ⟨c, -, only, read⟩ := calls_ask asked (by simp)
    obtain rfl := calls.unique only
    obtain ⟨word, -⟩ := (word_of_failed read).2 misuse
    refine ((Raised.countSpin s).trans (.ask asked)).congr rfl ?_ ?_ <;>
      simp [absorbed, passing_singleton, word]

/-! ## What an operation counts -/

/-- What an operation counts by its calls and the fault that ended it, if it leads from a lock `l`
to `l'`. -/
structure Charged (made : List Call) (fault : Option Fault) (l l' : Exclusive) : Prop where
  raised : Raised (if foundBusy made then 1 else 0) (retries made + absorbed made fault)
    (passing made) l l'
  few : passing made ≤ 3
  exhausted : passing made = 3 ↔ fault.any Fault.isExhausted = true

/-- An operation of one phase that did not find the mutex in other hands. -/
theorem charged_of_persist {op : Op} (returns : op = .lock → ∀ world, b.blocks world = false)
    (unheld : ∀ left, (s.persist b op Limits.spuriousRetries).1 ≠ .held left) :
    ∃ made, Calls made s (s.persist b op Limits.spuriousRetries).2 ∧
      Charged made (s.persist b op Limits.spuriousRetries).1.fault s.lock
        (s.persist b op Limits.spuriousRetries).2.lock := by
  obtain ⟨made, -, calls, persisted⟩ := persisted_persist b op returns Limits.spuriousRetries s
  have unbusy := persisted.unbusy unheld
  have few := persisted.decides.passing_le
  refine ⟨made, calls, (raised_persist returns calls).congr ?_ ?_ rfl, few.1, few.2⟩
  · rw [foundBusy_of_unbusy unbusy]
    rfl
  · rw [retries_of_unbusy unbusy, Nat.zero_add]

/-- An operation whose first phase found the mutex in other hands.  What the other phases count is
added to the contention. -/
theorem charged_of_contended {fast later : List Call} {left : Nat} {attempt : Attempt}
    {l l' l'' : Exclusive} (persisted : Persisted .tryLock Limits.spuriousRetries fast (.held left))
    (before : Raised 0 (absorbed fast none) (passing fast) l l')
    (decides : Decides left later attempt)
    (after : Raised 1 (later.countP (·.op = .tryLock) + absorbed later attempt.fault)
      (passing later) l' l'') :
    Charged (fast ++ later) attempt.fault l l'' := by
  have few := (persisted.decides.after decides).passing_le
  refine ⟨(before.trans after).congr ?_ ?_ ?_, few.1, few.2⟩
  · rw [persisted.foundBusy_append]
    rfl
  · rw [persisted.retries_append, decides.absorbed_append, absorbed_none]
    omega
  · rw [passing_append]

/-- An acquisition is charged by its calls and the fault that ended it. -/
theorem charged_acquire (returns : ∀ world, b.blocks world = false) (s : State σ) :
    ∃ made, Calls made s (s.acquire b).2 ∧
      Charged made (s.acquire b).1.fault s.lock (s.acquire b).2.lock := by
  obtain ⟨fast, -, tried, persisted⟩ :=
    persisted_persist b .tryLock (by simp) Limits.spuriousRetries s
  have before := raised_persist (by simp) tried
  fun_cases acquire b s with
  | case1 left t first left' u second =>
    rw [first] at tried persisted before
    obtain ⟨spins, spun, spinning⟩ := spun_spinOn b t.lock.spinLimit left t.countBusy.noteBusy
    have retried := raised_spinOn spun
    rw [second] at spun spinning retried
    obtain ⟨waits, -, awaited, waiting⟩ := persisted_persist b .lock (fun _ => returns) left' u
    have waited := raised_persist (fun _ => returns) awaited
    have waiting : Persisted .lock left' waits (u.await b left').1 := waiting
    have spun : Calls spins t u := spun
    have decides := spinning.decides.after waiting.decides
    have tries : (spins ++ waits).countP (·.op = .tryLock) = spins.length := by
      have all : spins.countP (·.op = .tryLock) = spins.length :=
        List.countP_eq_length.2 fun c hc => decide_eq_true (spinning.kind c hc)
      have none : waits.countP (·.op = .tryLock) = 0 :=
        List.countP_eq_zero.2 fun c hc => by simp [waiting.kind c hc]
      rw [List.countP_append, all, none, Nat.add_zero]
    refine ⟨fast ++ (spins ++ waits), tried.trans (spun.trans awaited),
      charged_of_contended persisted before decides ?_⟩
    refine (((Raised.countBusy t).trans retried).trans waited).congr rfl ?_ ?_
    · have whole : absorbed spins (Attempt.held left', u).1.fault = passing spins :=
        absorbed_none spins
      rw [tries, waiting.decides.absorbed_append, whole, await]
      omega
    · rw [passing_append, Nat.zero_add]
  | case2 left t first unheld =>
    rw [first] at tried persisted before
    obtain ⟨spins, spun, spinning⟩ := spun_spinOn b t.lock.spinLimit left t.countBusy.noteBusy
    have retried := raised_spinOn spun
    have spun : Calls spins t _ := spun
    have tries : spins.countP (·.op = .tryLock) = spins.length :=
      List.countP_eq_length.2 fun c hc => decide_eq_true (spinning.kind c hc)
    refine ⟨fast ++ spins, tried.trans spun,
      charged_of_contended persisted before spinning.decides ?_⟩
    refine ((Raised.countBusy t).trans retried).congr rfl ?_ ?_
    · rw [tries, Nat.zero_add]
    · rw [Nat.zero_add]
  | case3 unheld =>
    exact charged_of_persist (by simp) fun left held => unheld left _ (Prod.ext held rfl)

/-- An attempt is charged by its calls and the fault that ended it. -/
theorem charged_tryAcquire (b : Mutex.Backend σ) (s : State σ) :
    ∃ made, Calls made s (s.tryAcquire b).2 ∧
      Charged made (faultOf (s.tryAcquire b).1) s.lock (s.tryAcquire b).2.lock := by
  obtain ⟨fast, -, tried, persisted⟩ :=
    persisted_persist b .tryLock (by simp) Limits.spuriousRetries s
  have before := raised_persist (by simp) tried
  have single := @charged_of_persist σ b s .tryLock (by simp)
  fun_cases tryAcquire b s with
  | case1 t ended =>
    rw [ended] at single
    exact single (by simp)
  | case2 left t ended =>
    rw [ended] at tried persisted before
    have none : Decides left [] (.held left) := .held (by simp [Undecided]) (Nat.zero_add left)
    exact ⟨fast ++ [], tried.trans (.refl _),
      charged_of_contended persisted before none (.countBusy t)⟩
  | case3 f t ended =>
    rw [ended] at single
    exact single (by simp)

/-- A release is charged by its calls and the fault that ended it. -/
theorem charged_release (b : Mutex.Backend σ) (s : State σ) :
    ∃ made, Calls made s (s.release b).2 ∧
      Charged made (faultOf (s.release b).1) s.lock (s.release b).2.lock := by
  have unheld (left : Nat) : (s.persist b .unlock Limits.spuriousRetries).1 ≠ .held left :=
    persist_ne_held (by simp) (by simp) Limits.spuriousRetries s left
  have single := charged_of_persist (by simp) unheld
  fun_cases release b s with
  | case1 t ended | case3 f t ended =>
    rw [ended] at single
    exact single
  | case2 left t ended =>
    rw [ended] at unheld
    exact absurd rfl (unheld left)

/-- Every operation is charged by its calls and the fault that ended it. -/
theorem charged_operate (returns : ∀ world, b.blocks world = false) {op : Operation}
    (calls : Calls made s (s.operate b op).2) :
    Charged made (s.operate b op).1 s.lock (s.operate b op).2.lock := by
  cases op with
  | acquire =>
    obtain ⟨made', calls', charged⟩ := charged_acquire returns s
    obtain rfl := calls.unique calls'
    exact charged
  | tryAcquire =>
    obtain ⟨made', calls', charged⟩ := charged_tryAcquire b s
    obtain rfl := calls.unique calls'
    exact charged
  | release =>
    obtain ⟨made', calls', charged⟩ := charged_release b s
    obtain rfl := calls.unique calls'
    exact charged

/-- An answer of misuse leaves the counters as they were when the call was made, and the operation
ends with it. -/
theorem lock_persist_of_misuse {op : Op} {e : PrimitiveError} {t : State σ}
    (asked : s.ask b op = (.failed e, t)) (misuse : ¬ e.isSpurious = true) (left : Nat) :
    (s.persist b op left).2.lock = s.lock := by
  unfold persist
  simp only [asked, misuse, Bool.false_eq_true, ↓reduceIte]
  exact (lock_of_ask asked : t.lock = s.lock)

/-- A spin that is answered with misuse counts itself, and nothing further. -/
theorem lock_spinOn_of_misuse {e : PrimitiveError} {t : State σ}
    (asked : s.countSpin.ask b .tryLock = (.failed e, t)) (misuse : ¬ e.isSpurious = true)
    (spins left : Nat) : (s.spinOn b (spins + 1) left).2.lock = s.countSpin.lock := by
  unfold spinOn
  simp only [asked, misuse, Bool.false_eq_true, ↓reduceIte]
  exact (lock_of_ask asked : t.lock = s.countSpin.lock)

/-! ## The account of a course -/

/-- The counters of a lock are an account of the operations recorded. -/
structure Counted (records : List Record) (l : Exclusive) : Prop where
  spurious : l.spurious.value = .ofNat (records.map fun r => passing r.made).sum
  spin : l.spin.value = .ofNat (records.map fun r => retries r.made + absorbed r.made r.fault).sum
  busy : l.busy.value = .ofNat (records.countP fun r => foundBusy r.made)

theorem Counted.nil {l : Exclusive} (h : l.clearCounters = l) : Counted [] l := by
  rw [← h]
  exact ⟨rfl, rfl, rfl⟩

/-- One more operation adds what it is charged. -/
theorem Counted.cons {records : List Record} {l l' : Exclusive} (h : Counted records l)
    {r : Record} (charged : Charged r.made r.fault l l') : Counted (r :: records) l' := by
  have raised := charged.raised
  refine ⟨?_, ?_, ?_⟩
  · rw [raised.spurious, h.spurious, ← UInt64.ofNat_add, List.map_cons, List.sum_cons, Nat.add_comm]
  · rw [raised.spin, h.spin, ← UInt64.ofNat_add, List.map_cons, List.sum_cons, Nat.add_comm]
  · rw [raised.busy, h.busy, ← UInt64.ofNat_add, List.countP_cons]

/-- The counters of a lock are the account of the operations recorded of it. -/
theorem Recorded.counted {first : State σ} {records : List Record}
    (returns : ∀ world, b.blocks world = false) (zero : first.lock.clearCounters = first.lock)
    (r : Recorded b first records s) : Counted records s.lock := by
  induction r with
  | start => exact .nil zero
  | operate op _ calls ih => exact ih.cons (charged_operate returns calls)
  | setDebug on _ ih => exact ⟨ih.spurious, ih.spin, ih.busy⟩
  | clear _ _ => exact .nil rfl

end State

theorem isExhausted_iff {fault : Option Fault} :
    fault.any Fault.isExhausted = true ↔ ∃ e, fault = some (.exhausted e) := by
  rcases fault with _ | f
  · simp
  · cases f <;> simp [Fault.isExhausted]

/-- A lock is made with clear counters. -/
theorem eq_of_create {σ : Type} {b : Mutex.Backend σ} {spinLimit : Nat} {p wire : Mutex.Wire σ}
    {lock : Exclusive} (h : create b spinLimit p = (.ok lock, wire)) : lock = { spinLimit } := by
  unfold create at h
  split at h
  · exact (Except.ok.inj (Prod.mk.inj h).1).symm
  · cases h

/-- **The counters are an account of the answers.**  Whatever codes the mutex answers, and whatever
steps were taken, also such that unwind: modulo 2^64, `spurious` is how many calls failed for
reasons that may pass; `spin` is how many tries were made after the mutex was found in other hands,
and how many failures were absorbed; and `busy` is how many operations found the mutex in other
hands, all of that over the operations of the steps since the lock was made or its counters were
cleared.  The same holds between the operations of a step.  An operation raises `spurious` by three
at most, and by three exactly if it fails past the bound.  In whichever loop a call is answered with
misuse, that answer changes no counter. -/
theorem Session.counters_account {σ α : Type} {b : Mutex.Backend σ}
    (returns : ∀ world, b.blocks world = false) {spinLimit : Nat} {p wire : Mutex.Wire σ}
    {lock : Exclusive} (made : create b spinLimit p = (.ok lock, wire)) :
    let first : State σ := ⟨lock, wire⟩
    (∀ steps : List (Nat × Step α),
      let records := recorded b [] { state := first } steps
      let s := (({ state := first } : Session σ).after b steps).state
      State.Recorded b first records s ∧ State.Counted records s.lock) ∧
    (∀ records s, State.Recorded b first records s →
      s.lock.spurious.value = .ofNat (records.map fun r => passing r.made).sum ∧
      s.lock.spin.value =
        .ofNat (records.map fun r => retries r.made + absorbed r.made r.fault).sum ∧
      s.lock.busy.value = .ofNat (records.countP fun r => foundBusy r.made)) ∧
    (∀ (s : State σ) (op : Operation), ∃ n ≤ 3,
      (s.operate b op).2.lock.spurious.value = s.lock.spurious.value + .ofNat n ∧
      (n = 3 ↔ ∃ e, (s.operate b op).1 = some (.exhausted e))) ∧
    ∀ (s t : State σ) (e : PrimitiveError) (left : Nat), e.isSpurious = false →
      (∀ op, s.ask b op = (.failed e, t) → (s.persist b op left).2.lock = s.lock) ∧
      (s.countSpin.ask b .tryLock = (.failed e, t) →
        ∀ spins, (s.spinOn b (spins + 1) left).2.lock = s.countSpin.lock) := by
  intro first
  have zero : first.lock.clearCounters = first.lock := by
    simp only [first, eq_of_create made]
    rfl
  refine ⟨fun steps => ?_, fun records s recorded => ?_, ?_, ?_⟩
  · have recorded := recorded_after (s := { state := first }) (.start (b := b)) steps
    exact ⟨recorded, recorded.counted returns zero⟩
  · have counted := recorded.counted returns zero
    exact ⟨counted.spurious, counted.spin, counted.busy⟩
  · intro s op
    obtain ⟨calls, asked, -⟩ := State.exists_calls b op s
    have charged := State.charged_operate returns asked
    exact ⟨passing calls, charged.few, charged.raised.spurious,
      charged.exhausted.trans isExhausted_iff⟩
  · intro s t e left misuse
    have misuse : ¬ e.isSpurious = true := by simp [misuse]
    exact ⟨fun op asked => State.lock_persist_of_misuse asked misuse left,
      fun asked spins => State.lock_spinOn_of_misuse asked misuse spins left⟩

/-- A mutex that fails once in the first phase of an acquisition and once in the second, then again
and again, and at last finds its rules broken. -/
def failing : Mutex.Script where
  tryLock := ⟨[(11, 1), (16, 2), (11, 4)]⟩
  unlock := ⟨[(1, 1)]⟩

/-- An acquisition is contended, an attempt fails past the bound, and a release is misuse.  The last
two are what is left when the counters are cleared after the first. -/
theorem counters_account_of_failing :
    let b := Mutex.Script.backend
    let p : Mutex.Wire Mutex.Script := { world := failing }
    let first : State Mutex.Script := ⟨{ spinLimit := 2 }, (createMutex b p).2⟩
    let all : List (Nat × Step Unit) := [(0, .lock), (1, .tryLock), (0, .unlock)]
    let cleared : List (Nat × Step Unit) := [(0, .lock), (0, .clear), (1, .tryLock), (0, .unlock)]
    let lock (steps : List (Nat × Step Unit)) :=
      (({ state := first } : Session Mutex.Script).after b steps).state.lock
    let records (steps : List (Nat × Step Unit)) := Session.recorded b [] { state := first } steps
    (((lock all).busy = ⟨1⟩ ∧ (lock all).spin = ⟨6⟩ ∧ (lock all).spurious = ⟨5⟩) ∧
      (records all).map (·.operation) = [.release, .tryAcquire, .acquire] ∧
      State.Counted (records all) (lock all)) ∧
    ((lock cleared).busy = ⟨0⟩ ∧ (lock cleared).spin = ⟨2⟩ ∧ (lock cleared).spurious = ⟨3⟩) ∧
      (records cleared).map (·.operation) = [.release, .tryAcquire] ∧
      State.Counted (records cleared) (lock cleared) := by
  intro b p first all cleared lock records
  have made : create b 2 p = (.ok { spinLimit := 2 }, (createMutex b p).2) := rfl
  have account := (Session.counters_account (α := Unit) (b := b) (fun _ => rfl) made).1
  exact ⟨⟨by decide, by decide, (account all).2⟩, by decide, by decide, (account cleared).2⟩

end Exclusive

end Interlock
