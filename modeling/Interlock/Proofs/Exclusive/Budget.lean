import Interlock.Proofs.Exclusive.Balance

/-!
# What one operation of the exclusive lock may spend

Two of the three phases of an acquisition are loops without a bound of their own.  They end because
the whole operation absorbs only `Limits.spuriousRetries` failures, wherever these fall.  The calls
of an operation are read here in the order in which they were made: a call settles the operation if
it succeeds, if it tells of misuse, or if it fails once more than can be absorbed; `Decides` says
that the last call did and no earlier one.  `Decides.after` carries the failures left over from one
phase into the next.
-/

namespace Interlock

theorem PrimitiveError.isMisuseCode_iff {code : Int} :
    isMisuseCode code = true ↔ code = 1 ∨ code = 22 ∨ code = 35 := by
  simp only [isMisuseCode, Errno.edeadlk, Errno.eperm, Errno.einval, Bool.or_eq_true, beq_iff_eq]
  omega

namespace Mutex

/-- What the code of a call means to an operation that is under way. -/
inductive Word where
  | success
  /-- A try found the mutex in other hands. -/
  | busy
  | misuse
  /-- A failure that may pass. -/
  | passing
  deriving DecidableEq, Repr

/-- What the mutex says to a call, in one word. -/
def Call.word (c : Call) : Word :=
  if c.code = 0 then .success
  else if c.op = .tryLock ∧ c.code = 16 then .busy
  else if c.code = 1 ∨ c.code = 22 ∨ c.code = 35 then .misuse
  else .passing

/-- The word that a call was answered with tells how the answer is read. -/
theorem Call.read_of_word (c : Call) :
    c.op.read c.code =
      match c.word with
      | .success => .done
      | .busy => .held
      | .misuse => .failed (.misuse c.op.symbol c.code)
      | .passing => .failed (.spurious c.op.symbol c.code) := by
  unfold Op.read PrimitiveError.check word
  simp only [Errno.ebusy, beq_iff_eq, PrimitiveError.isMisuseCode_iff]
  by_cases zero : c.code = 0
  · simp [zero]
  by_cases held : c.op = .tryLock ∧ c.code = 16
  · simp [held]
  by_cases misuse : c.code = 1 ∨ c.code = 22 ∨ c.code = 35 <;> simp [zero, held, misuse]

end Mutex

namespace Exclusive

open Mutex (Call Op Word)

/-! ## Calls that settle an operation -/

/-- How many calls failed for a reason that may pass. -/
def passing (made : List Call) : Nat := made.countP (·.word = .passing)

theorem passing_append (earlier later : List Call) :
    passing (earlier ++ later) = passing earlier + passing later := List.countP_append

/-- None of these calls settles an operation by itself. -/
def Undecided (made : List Call) : Prop := ∀ c ∈ made, c.word = .busy ∨ c.word = .passing

theorem Undecided.append {earlier later : List Call} (h : Undecided earlier)
    (h' : Undecided later) : Undecided (earlier ++ later) := fun c hc =>
  (List.mem_append.1 hc).elim (h c) (h' c)

/-- How an operation stands that can absorb `budget` failures, by its calls, first to last: the
first success, the first misuse or the first failure past the budget settles it, whichever comes
first, and is its last call. -/
inductive Decides (budget : Nat) : List Call → Attempt → Prop where
  | done {earlier : List Call} {c : Call} (undecided : Undecided earlier)
      (absorbed : passing earlier ≤ budget) (last : c.word = .success) :
      Decides budget (earlier ++ [c]) .done
  | misuse {earlier : List Call} {c : Call} (undecided : Undecided earlier)
      (absorbed : passing earlier ≤ budget) (last : c.word = .misuse) :
      Decides budget (earlier ++ [c]) (.failed (.misuse (.misuse c.op.symbol c.code)))
  | exhausted {earlier : List Call} {c : Call} (undecided : Undecided earlier)
      (absorbed : passing earlier = budget) (last : c.word = .passing) :
      Decides budget (earlier ++ [c]) (.failed (.exhausted (.spurious c.op.symbol c.code)))
  | held {made : List Call} {left : Nat} (undecided : Undecided made)
      (absorbed : passing made + left = budget) : Decides budget made (.held left)

namespace Decides

variable {budget left : Nat} {earlier made : List Call} {attempt : Attempt}

theorem of_held (h : Decides budget made (.held left)) :
    Undecided made ∧ passing made + left = budget := by
  cases h with
  | held undecided absorbed => exact ⟨undecided, absorbed⟩

section Single

variable {c : Call}

theorem of_success (h : c.word = .success) : Decides budget [c] .done :=
  @done budget [] c (by simp [Undecided]) (Nat.zero_le _) h

theorem of_misuse (h : c.word = .misuse) :
    Decides budget [c] (.failed (.misuse (.misuse c.op.symbol c.code))) :=
  @misuse budget [] c (by simp [Undecided]) (Nat.zero_le _) h

theorem of_passing_zero (h : c.word = .passing) :
    Decides 0 [c] (.failed (.exhausted (.spurious c.op.symbol c.code))) :=
  @exhausted 0 [] c (by simp [Undecided]) rfl h

theorem single_of_busy (h : c.word = .busy) : Decides budget [c] (.held budget) :=
  held (by simp [Undecided, h]) (by simp [passing, h])

end Single

/-- What a phase leaves of the budget is the budget of the next one. -/
theorem after (first : Decides budget earlier (.held left)) (next : Decides left made attempt) :
    Decides budget (earlier ++ made) attempt := by
  obtain ⟨undecided, absorbed⟩ := first.of_held
  cases next with
  | done undecided' absorbed' last =>
    rw [← List.append_assoc]
    refine .done (undecided.append undecided') ?_ last
    rw [passing_append]
    omega
  | misuse undecided' absorbed' last =>
    rw [← List.append_assoc]
    refine .misuse (undecided.append undecided') ?_ last
    rw [passing_append]
    omega
  | exhausted undecided' absorbed' last =>
    rw [← List.append_assoc]
    refine .exhausted (undecided.append undecided') ?_ last
    rw [passing_append]
    omega
  | held undecided' absorbed' =>
    refine .held (undecided.append undecided') ?_
    rw [passing_append]
    omega

/-- A failure that is absorbed leaves the operation to the later calls. -/
theorem of_passing {c : Call} (h : c.word = .passing) (next : Decides left made attempt) :
    Decides (left + 1) (c :: made) attempt := by
  have first : Decides (left + 1) [c] (.held left) :=
    .held (by simp [Undecided, h]) (by simp [passing, h]; omega)
  exact first.after next

theorem of_busy {c : Call} (h : c.word = .busy) (next : Decides left made attempt) :
    Decides left (c :: made) attempt := (single_of_busy h).after next

/-- Of the calls before the last one, no more failed for reasons that may pass than can be
absorbed. -/
theorem passing_dropLast_le (h : Decides budget made attempt) :
    passing made.dropLast ≤ budget := by
  cases h with
  | done _ absorbed _ | misuse _ absorbed _ => simpa using absorbed
  | exhausted _ absorbed _ => simpa using Nat.le_of_eq absorbed
  | held _ absorbed =>
    have fewer : passing made.dropLast ≤ passing made := (List.dropLast_sublist made).countP_le
    omega

end Decides

/-! ## The phases of an acquisition -/

namespace State

variable {σ : Type} {b : Mutex.Backend σ} {s t u : State σ}

/-- The calls that lead from `s` to `t`, first to last. -/
def Calls (made : List Call) (s t : State σ) : Prop :=
  t.wire.calls = made.reverse ++ s.wire.calls

theorem Calls.trans {earlier later : List Call} (h : Calls earlier s t) (h' : Calls later t u) :
    Calls (earlier ++ later) s u := by
  unfold Calls at h h' ⊢
  rw [h', h, List.reverse_append, List.append_assoc]

/-- Asking the mutex is one call, answered by its code. -/
theorem calls_ask {op : Op} {answer : Mutex.Answer} (h : s.ask b op = (answer, t))
    (returns : op = .lock → ∀ world, b.blocks world = false) :
    ∃ c : Call, c.op = op ∧ Calls [c] s t ∧ c.op.read c.code = answer := by
  have unblocked : ¬ (op = .lock ∧ b.blocks s.wire.world = true) := fun h => by
    simp [returns h.1] at h
  simp only [ask, Mutex.Wire.ask, unblocked, ↓reduceIte, Prod.mk.injEq] at h
  obtain ⟨rfl, rfl⟩ := h
  exact ⟨⟨op, (b.answer op s.wire.world).1⟩, rfl, rfl, rfl⟩

end State

theorem word_of_done {c : Call} (h : c.op.read c.code = .done) : c.word = .success := by
  rw [c.read_of_word] at h
  revert h
  cases c.word <;> simp

/-- Only a try with code 16 says that the mutex is in other hands. -/
theorem eq_busy_of_held {c : Call} (h : c.op.read c.code = .held) : c = ⟨.tryLock, 16⟩ := by
  obtain ⟨op, code⟩ := c
  unfold Op.read at h
  split at h
  · next busy => simpa [Errno.ebusy] using busy
  · split at h <;> cases h

theorem word_busy : (⟨.tryLock, 16⟩ : Call).word = .busy := rfl

/-- A failure may pass exactly if its code does not mean misuse. -/
theorem word_of_failed {c : Call} {e : PrimitiveError} (h : c.op.read c.code = .failed e) :
    (e.isSpurious = true → c.word = .passing ∧ e = .spurious c.op.symbol c.code) ∧
      (¬ e.isSpurious = true → c.word = .misuse ∧ e = .misuse c.op.symbol c.code) := by
  rw [c.read_of_word] at h
  revert h
  cases c.word with
  | success | busy => simp
  | misuse | passing =>
    intro h
    obtain rfl := Mutex.Answer.failed.inj h
    simp [PrimitiveError.isSpurious]

/-- A loop of calls of one kind: all but the last failed and were absorbed, and a mutex in other
hands ends it. -/
structure Persisted (op : Op) (budget : Nat) (made : List Call) (attempt : Attempt) : Prop where
  kind : ∀ c ∈ made, c.op = op
  decides : Decides budget made attempt
  absorbed : ∀ c ∈ made.dropLast, c.word = .passing
  busy : ∀ left, attempt = .held left → made.getLast? = some ⟨.tryLock, 16⟩

/-- A call is repeated at most once for each failure that may be absorbed. -/
theorem Persisted.length_le {op : Op} {budget : Nat} {made : List Call} {attempt : Attempt}
    (h : Persisted op budget made attempt) : made.length ≤ budget + 1 := by
  have few := h.decides.passing_dropLast_le
  have all : passing made.dropLast = made.dropLast.length :=
    List.countP_eq_length.2 fun c hc => decide_eq_true (h.absorbed c hc)
  rw [List.length_dropLast] at all
  omega

/-- What was absorbed before the mutex was found in other hands is missing from the budget. -/
theorem Persisted.length_of_held {op : Op} {budget left : Nat} {made : List Call}
    (h : Persisted op budget made (.held left)) : made.length + left ≤ budget + 1 := by
  obtain ⟨earlier, rfl⟩ := List.getLast?_eq_some_iff.1 (h.busy left rfl)
  have all : passing earlier = earlier.length :=
    List.countP_eq_length.2 fun c hc => decide_eq_true (h.absorbed c (by simpa using hc))
  have absorbed := h.decides.of_held.2
  rw [passing_append, all] at absorbed
  rw [List.length_append, List.length_singleton]
  omega

/-- A call that settles the matter is not repeated. -/
theorem Persisted.single {op : Op} {budget : Nat} {c : Call} {attempt : Attempt} (hop : c.op = op)
    (decides : Decides budget [c] attempt)
    (busy : ∀ left, attempt = .held left → c = ⟨.tryLock, 16⟩) :
    Persisted op budget [c] attempt where
  kind := by simpa using hop
  decides := decides
  absorbed := by simp
  busy left h := by rw [busy left h, List.getLast?_singleton]

/-- A call that failed for a reason that may pass is repeated. -/
theorem Persisted.of_passing {op : Op} {left : Nat} {c : Call} {made : List Call}
    {attempt : Attempt} (hop : c.op = op) (h : c.word = .passing)
    (next : Persisted op left made attempt) (nonempty : made ≠ []) :
    Persisted op (left + 1) (c :: made) attempt where
  kind := by simpa [hop] using next.kind
  decides := next.decides.of_passing h
  absorbed := by simpa [List.dropLast_cons_of_ne_nil nonempty, h] using next.absorbed
  busy n hn := by rw [List.getLast?_cons_of_ne_nil nonempty, next.busy n hn]

/-- Tries of a mutex in other hands, at most `spins` of them. -/
structure Spun (spins budget : Nat) (made : List Call) (attempt : Attempt) : Prop where
  kind : ∀ c ∈ made, c.op = .tryLock
  decides : Decides budget made attempt
  few : made.length ≤ spins
  lasting : ∀ left, attempt = .held left → made.length = spins

/-- A spin that settles the matter is the last one. -/
theorem Spun.single {spins budget : Nat} {c : Call} {attempt : Attempt} (hop : c.op = .tryLock)
    (decides : Decides budget [c] attempt) (settled : ∀ left, attempt ≠ .held left) :
    Spun (spins + 1) budget [c] attempt where
  kind := by simpa using hop
  decides := decides
  few := by simp
  lasting left h := absurd h (settled left)

/-- A spin that finds the mutex in other hands is followed by another one. -/
theorem Spun.of_busy {spins left : Nat} {c : Call} {made : List Call} {attempt : Attempt}
    (hop : c.op = .tryLock) (h : c.word = .busy) (next : Spun spins left made attempt) :
    Spun (spins + 1) left (c :: made) attempt where
  kind := by simpa [hop] using next.kind
  decides := next.decides.of_busy h
  few := Nat.succ_le_succ next.few
  lasting n hn := congrArg (· + 1) (next.lasting n hn)

/-- A spin whose failure is absorbed is followed by another one. -/
theorem Spun.of_passing {spins left : Nat} {c : Call} {made : List Call} {attempt : Attempt}
    (hop : c.op = .tryLock) (h : c.word = .passing) (next : Spun spins left made attempt) :
    Spun (spins + 1) (left + 1) (c :: made) attempt where
  kind := by simpa [hop] using next.kind
  decides := next.decides.of_passing h
  few := Nat.succ_le_succ next.few
  lasting n hn := congrArg (· + 1) (next.lasting n hn)

namespace State

variable {σ : Type} {b : Mutex.Backend σ}

/-- A call is repeated until it is settled or the budget is used up. -/
theorem persisted_persist (b : Mutex.Backend σ) (op : Op)
    (returns : op = .lock → ∀ world, b.blocks world = false) (left : Nat) (s : State σ) :
    ∃ made, made ≠ [] ∧ Calls made s (s.persist b op left).2 ∧
      Persisted op left made (s.persist b op left).1 := by
  fun_induction persist b op left s with
  | case1 left s t asked =>
    obtain ⟨c, hop, calls, read⟩ := calls_ask asked returns
    exact ⟨[c], by simp, calls, .single hop (.of_success (word_of_done read)) (by simp)⟩
  | case2 left s t asked =>
    obtain ⟨c, hop, calls, read⟩ := calls_ask asked returns
    obtain rfl := eq_busy_of_held read
    exact ⟨_, by simp, calls, .single hop (.single_of_busy word_busy) (by simp)⟩
  | case3 s e t asked spurious =>
    obtain ⟨c, hop, calls, read⟩ := calls_ask asked returns
    obtain ⟨word, rfl⟩ := (word_of_failed read).1 spurious
    exact ⟨[c], by simp, calls, .single hop (.of_passing_zero word) (by simp [fail])⟩
  | case4 s e t asked spurious left ih =>
    obtain ⟨c, hop, calls, read⟩ := calls_ask asked returns
    obtain ⟨word, -⟩ := (word_of_failed read).1 spurious
    obtain ⟨made, nonempty, rest, persisted⟩ := ih
    have calls : Calls [c] s (t.absorb e) := calls
    exact ⟨c :: made, by simp, calls.trans rest, persisted.of_passing hop word nonempty⟩
  | case5 left s e t asked misuse =>
    obtain ⟨c, hop, calls, read⟩ := calls_ask asked returns
    obtain ⟨word, rfl⟩ := (word_of_failed read).2 misuse
    exact ⟨[c], by simp, calls, .single hop (.of_misuse word) (by simp [fail])⟩

/-- Spins go on until one settles the matter, or there are no more of them or of the budget. -/
theorem spun_spinOn (b : Mutex.Backend σ) (spins left : Nat) (s : State σ) :
    ∃ made, Calls made s (s.spinOn b spins left).2 ∧
      Spun spins left made (s.spinOn b spins left).1 := by
  fun_induction spinOn b spins left s with
  | case1 left s =>
    refine ⟨[], rfl, by simp, .held (by simp [Undecided]) (Nat.zero_add left), by simp, ?_⟩
    exact fun _ _ => rfl
  | case2 left spins s t asked =>
    obtain ⟨c, hop, calls, read⟩ := calls_ask asked (by simp)
    exact ⟨[c], calls, .single hop (.of_success (word_of_done read)) (by simp)⟩
  | case3 left spins s t asked ih =>
    obtain ⟨c, hop, calls, read⟩ := calls_ask asked (by simp)
    obtain rfl := eq_busy_of_held read
    obtain ⟨made, rest, spun⟩ := ih
    have calls : Calls [⟨.tryLock, 16⟩] s t := calls
    exact ⟨_, calls.trans rest, spun.of_busy hop word_busy⟩
  | case4 spins s e t asked spurious =>
    obtain ⟨c, hop, calls, read⟩ := calls_ask asked (by simp)
    obtain ⟨word, rfl⟩ := (word_of_failed read).1 spurious
    exact ⟨[c], calls, .single hop (.of_passing_zero word) (by simp [fail])⟩
  | case5 spins s e t asked spurious left ih =>
    obtain ⟨c, hop, calls, read⟩ := calls_ask asked (by simp)
    obtain ⟨word, -⟩ := (word_of_failed read).1 spurious
    obtain ⟨made, rest, spun⟩ := ih
    have calls : Calls [c] s (t.absorb e) := calls
    exact ⟨c :: made, calls.trans rest, spun.of_passing hop word⟩
  | case6 left spins s e t asked misuse =>
    obtain ⟨c, hop, calls, read⟩ := calls_ask asked (by simp)
    obtain ⟨word, rfl⟩ := (word_of_failed read).2 misuse
    exact ⟨[c], calls, .single hop (.of_misuse word) (by simp [fail])⟩

theorem lock_of_ask {op : Op} {answer : Mutex.Answer} {s t : State σ}
    (h : s.ask b op = (answer, t)) : t.lock = s.lock := by
  obtain rfl : (s.ask b op).2 = t := by rw [h]
  rfl

theorem spinLimit_persist (b : Mutex.Backend σ) (op : Op) (left : Nat) (s : State σ) :
    (s.persist b op left).2.lock.spinLimit = s.lock.spinLimit := by
  fun_induction persist b op left s with
  | case1 left s t asked | case2 left s t asked => rw [lock_of_ask asked]
  | case3 s e t asked _ => rw [← lock_of_ask asked]; rfl
  | case4 s e t asked _ left ih => rw [ih, ← lock_of_ask asked]; rfl
  | case5 left s e t asked _ => rw [← lock_of_ask asked]; rfl

/-- How the calls of an acquisition fall into its phases.  Each phase is entered only when the one
before it was used up. -/
structure Phases (spinLimit : Nat) (fast spins waits : List Call) : Prop where
  tries : ∀ c ∈ fast ++ spins, c.op = .tryLock
  blocking : ∀ c ∈ waits, c.op = .lock
  few : spins.length ≤ spinLimit
  contended : spins ++ waits ≠ [] →
    fast.getLast? = some ⟨.tryLock, 16⟩ ∧ ∀ c ∈ fast.dropLast, c.word = .passing
  lasting : waits ≠ [] → spins.length = spinLimit ∧ Undecided spins

/-- An acquisition tries, spins and waits, in this order and within one budget. -/
theorem phases_acquire (returns : ∀ world, b.blocks world = false) (s : State σ) :
    ∃ fast spins waits, Phases s.lock.spinLimit fast spins waits ∧
      Calls (fast ++ spins ++ waits) s (s.acquire b).2 ∧
      Decides Limits.spuriousRetries (fast ++ spins ++ waits) (s.acquire b).1 ∧
      (fast ++ spins ++ waits).length ≤ s.lock.spinLimit + Limits.spuriousRetries + 2 := by
  obtain ⟨fast, -, tried, persisted⟩ :=
    persisted_persist b .tryLock (by simp) Limits.spuriousRetries s
  have limit := spinLimit_persist b .tryLock Limits.spuriousRetries s
  fun_cases acquire b s with
  | case1 left t first left' u second =>
    rw [first] at tried persisted limit
    obtain ⟨spins, spun, spinning⟩ := spun_spinOn b t.lock.spinLimit left t.countBusy.noteBusy
    rw [second] at spun spinning
    obtain ⟨waits, -, awaited, waiting⟩ := persisted_persist b .lock (fun _ => returns) left' u
    have spun : Calls spins t u := spun
    refine ⟨fast, spins, waits, ⟨?_, waiting.kind, ?_, ?_, ?_⟩, ?_, ?_, ?_⟩
    · exact fun c hc => (List.mem_append.1 hc).elim (persisted.kind c) (spinning.kind c)
    · exact limit ▸ spinning.few
    · exact fun _ => ⟨persisted.busy left rfl, persisted.absorbed⟩
    · exact fun _ => ⟨limit ▸ spinning.lasting left' rfl, spinning.decides.of_held.1⟩
    · exact (tried.trans spun).trans awaited
    · exact (persisted.decides.after spinning.decides).after waiting.decides
    · -- what the first phase absorbed is missing from what the last one may absorb
      have fewFast := persisted.length_of_held
      have fewSpins : spins.length ≤ s.lock.spinLimit := limit ▸ spinning.few
      have fewWaits := waiting.length_le
      have fewLeft := spinning.decides.of_held.2
      simp only [List.length_append]
      omega
  | case2 left t first unheld =>
    rw [first] at tried persisted limit
    obtain ⟨spins, spun, spinning⟩ := spun_spinOn b t.lock.spinLimit left t.countBusy.noteBusy
    have spun : Calls spins t _ := spun
    have fewSpins : spins.length ≤ s.lock.spinLimit := limit ▸ spinning.few
    refine ⟨fast, spins, [], ⟨?_, by simp, fewSpins, ?_, by simp⟩, ?_, ?_, ?_⟩
    · exact fun c hc => (List.mem_append.1 hc).elim (persisted.kind c) (spinning.kind c)
    · exact fun _ => ⟨persisted.busy left rfl, persisted.absorbed⟩
    · simpa using tried.trans spun
    · simpa using persisted.decides.after spinning.decides
    · have fewFast := persisted.length_of_held
      simp only [List.length_append, List.length_nil]
      omega
  | case3 unheld =>
    have few := persisted.length_le
    refine ⟨fast, [], [], ⟨by simpa using persisted.kind, by simp, Nat.zero_le _, by simp, by simp⟩,
      ?_, ?_, ?_⟩
    · simpa using tried
    · simpa using persisted.decides
    · simp only [List.append_nil]
      omega

end State

/-- An attempt read as the answer of a try. -/
def Attempt.answer : Attempt → Except Fault Bool
  | .done => .ok true
  | .held _ => .ok false
  | .failed f => .error f

namespace State

variable {σ : Type}

/-- An attempt is one try, repeated within the budget. -/
theorem persisted_tryAcquire (b : Mutex.Backend σ) (s : State σ) :
    ∃ made attempt, Persisted .tryLock Limits.spuriousRetries made attempt ∧
      Calls made s (s.tryAcquire b).2 ∧ (s.tryAcquire b).1 = attempt.answer := by
  obtain ⟨made, -, calls, persisted⟩ :=
    persisted_persist b .tryLock (by simp) Limits.spuriousRetries s
  refine ⟨made, _, persisted, ?_⟩
  fun_cases tryAcquire b s with
  | case1 t ended | case2 left t ended | case3 f t ended =>
    rw [ended] at calls ⊢
    exact ⟨calls, rfl⟩

/-- A release is one call to unlock, repeated within the budget. -/
theorem persisted_release (b : Mutex.Backend σ) (s : State σ) :
    ∃ made attempt, Persisted .unlock Limits.spuriousRetries made attempt ∧
      Calls made s (s.release b).2 ∧ (∀ left, attempt ≠ .held left) ∧
      (s.release b).1.map (fun _ => true) = attempt.answer := by
  obtain ⟨made, -, calls, persisted⟩ :=
    persisted_persist b .unlock (by simp) Limits.spuriousRetries s
  have unheld (n : Nat) : (s.persist b .unlock Limits.spuriousRetries).1 ≠ .held n :=
    persist_ne_held (by simp) (by simp) Limits.spuriousRetries s n
  refine ⟨made, _, persisted, ?_⟩
  fun_cases release b s with
  | case1 t ended | case3 f t ended =>
    rw [ended] at calls unheld ⊢
    exact ⟨calls, unheld, rfl⟩
  | case2 left t ended =>
    rw [ended] at unheld
    exact absurd rfl (unheld left)

/-- **The budget of an operation.**  Whatever was done with the lock before, and whatever codes the
mutex answers: an acquisition ends after at most four calls more than it may spin, an attempt or a
release after at most three, and which of its calls settles it is told by `Decides` with room for
two failures.  The phases of an acquisition share that room, and its blocking call is made only when
the first tries ended with a mutex in other hands and every spin failed.  An attempt only tries, and
a mutex in other hands ends it. -/
theorem operation_within_budget (b : Mutex.Backend σ) (s : State σ) :
    ((∀ world, b.blocks world = false) → ∃ fast spins waits,
      Phases s.lock.spinLimit fast spins waits ∧
      Calls (fast ++ spins ++ waits) s (s.acquire b).2 ∧
      Decides 2 (fast ++ spins ++ waits) (s.acquire b).1 ∧
      (∀ left, (s.acquire b).1 ≠ .held left) ∧
      (fast ++ spins ++ waits).length ≤ s.lock.spinLimit + 4) ∧
    (∃ made attempt, Calls made s (s.tryAcquire b).2 ∧ (∀ c ∈ made, c.op = .tryLock) ∧
      Decides 2 made attempt ∧ (s.tryAcquire b).1 = attempt.answer ∧
      (∀ c ∈ made.dropLast, c.word = .passing) ∧
      (∀ left, attempt = .held left → made.getLast? = some ⟨.tryLock, 16⟩) ∧
      made.length ≤ 3) ∧
    ∃ made attempt, Calls made s (s.release b).2 ∧ (∀ c ∈ made, c.op = .unlock) ∧
      Decides 2 made attempt ∧ (s.release b).1.map (fun _ => true) = attempt.answer ∧
      (∀ left, attempt ≠ .held left) ∧ made.length ≤ 3 := by
  refine ⟨fun returns => ?_, ?_, ?_⟩
  · obtain ⟨fast, spins, waits, phases, calls, decides, few⟩ := phases_acquire returns s
    exact ⟨fast, spins, waits, phases, calls, decides, acquire_ne_held returns s, few⟩
  · obtain ⟨made, attempt, persisted, calls, result⟩ := persisted_tryAcquire b s
    exact ⟨made, attempt, calls, persisted.kind, persisted.decides, result, persisted.absorbed,
      persisted.busy, persisted.length_le⟩
  · obtain ⟨made, attempt, persisted, calls, unheld, result⟩ := persisted_release b s
    exact ⟨made, attempt, calls, persisted.kind, persisted.decides, result, unheld,
      persisted.length_le⟩

/-- A mutex that fails once in each phase of an acquisition. -/
def faltering : Mutex.Script where
  tryLock := ⟨[(11, 1), (16, 2), (11, 1)]⟩
  lock := ⟨[(16, 1)]⟩

/-- The third failure that may pass ends the acquisition, although no phase saw more than one. -/
theorem within_budget_of_faltering :
    let b := Mutex.Script.backend
    let s : State Mutex.Script := { lock := { spinLimit := 2 }, wire := { world := faltering } }
    (s.acquire b).1 = .failed (.exhausted (.spurious "pthread_mutex_lock" 16)) ∧
      (s.acquire b).2.wire.calls.length = 5 ∧
      ∃ fast spins waits, Phases 2 fast spins waits ∧
        Calls (fast ++ spins ++ waits) s (s.acquire b).2 ∧
        Decides 2 (fast ++ spins ++ waits) (s.acquire b).1 ∧
        (∀ left, (s.acquire b).1 ≠ .held left) ∧
        (fast ++ spins ++ waits).length ≤ 2 + 4 := by
  refine ⟨by decide, by decide, ?_⟩
  exact (operation_within_budget Mutex.Script.backend
    { lock := { spinLimit := 2 }, wire := { world := faltering } }).1 fun _ => rfl

end State

end Exclusive

end Interlock
