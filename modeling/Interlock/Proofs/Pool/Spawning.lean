import Interlock.Proofs.Pool.Early

/-!
# Which threads are asked for

The maker of a pool asks for the threads of its workers in order, and for none after one that was
refused (`Reachable.asked`).  So the first worker whose thread is refused decides how the pool
fails, and a pool gets ready only if every thread was started.
-/

namespace Interlock.Pool

variable {config : Config} {spawner : Nat → Except StartFailure (Option Payload.Inert)}
  {p q : Pool} {log : Array (Thread × Log.Line)} {a : Action} {k : Nat} {reason : StartFailure}

/-- How many threads have been asked for, unless the pool was rejected or its maker unwound. -/
def Creation.asked? (size : Nat) : Creation → Option Nat
  | .preparing i => some i
  | .spawning i => some i
  | .storing i => some (i + 1)
  | .undoing i _ => some (i + 1)
  | .noting i _ => some (i + 1)
  | .rollingBack i _ _ => some (i + 1)
  | .dropping i _ _ => some (i + 1)
  | .failed (.spawn i _) => some (i + 1)
  | .awaiting _ => some size
  | .asleep _ => some size
  | .announcing => some size
  | .ready => some size
  | .failed _ => none
  | .broken _ => none

/-- The worker whose thread was refused, and why. -/
def Creation.refusal? : Creation → Option (Nat × StartFailure)
  | .undoing i reason => some (i, reason)
  | .noting i reason => some (i, reason)
  | .rollingBack i reason _ => some (i, reason)
  | .dropping i reason _ => some (i, reason)
  | .failed (.spawn i reason) => some (i, reason)
  | _ => none

@[simp] theorem asked?_roused (size j : Nat) (creation : Creation) :
    (creation.roused j).asked? size = creation.asked? size := by
  unfold Creation.roused
  split
  · next h => rw [h]; rfl
  · rfl

@[simp] theorem refusal?_roused (j : Nat) (creation : Creation) :
    (creation.roused j).refusal? = creation.refusal? := by
  unfold Creation.roused
  split
  · next h => rw [h]; rfl
  · rfl

theorem asked?_of_refusal {creation : Creation} (size : Nat)
    (h : creation.refusal? = some (k, reason)) : creation.asked? size = some (k + 1) := by
  cases creation with
  | failed e =>
    cases e with
    | spawn =>
      cases h
      rfl
    | stopped | invalidConfig => cases h
  | undoing | noting | rollingBack | dropping =>
    cases h
    rfl
  | _ => cases h

/-- The threads of the workers before `n` were asked for in order, and all of them were started but
for the last one, if that was refused. -/
structure AskedTo (spawner : Nat → Except StartFailure (Option Payload.Inert)) (p : Pool)
    (n : Nat) : Prop where
  asked : p.creation.asked? p.size = some n
  within : n ≤ p.size
  spawned : p.spawned = (List.range n).reverse
  accepted : ∀ i < n, (∃ exit, spawner i = .ok exit) ∨
    ∃ reason, p.creation.refusal? = some (i, reason)
  refused : ∀ i reason, p.creation.refusal? = some (i, reason) → spawner i = .error reason

theorem AskedTo.of_eq {n : Nat} (h : AskedTo spawner p n) (hsize : q.size = p.size)
    (hspawned : q.spawned = p.spawned)
    (hasked : q.creation.asked? p.size = p.creation.asked? p.size)
    (hrefusal : q.creation.refusal? = p.creation.refusal?) : AskedTo spawner q n where
  asked := by rw [hsize, hasked, h.asked]
  within := by rw [hsize]; exact h.within
  spawned := by rw [hspawned, h.spawned]
  accepted := by rw [hrefusal]; exact h.accepted
  refused := by rw [hrefusal]; exact h.refused

theorem ReapingMove.asks {r r' : Reaping} (m : ReapingMove p log r r' q) :
    q.spawner = p.spawner ∧ q.spawned = p.spawned := by
  cases m with
  | nudge m => cases m <;> exact ⟨rfl, rfl⟩
  | _ => exact ⟨rfl, rfl⟩

/-- Only the maker of a pool asks for threads. -/
theorem Move.asks (m : Move p log a q) :
    CreationMove p log q ∨ q.spawner = p.spawner ∧ q.spawned = p.spawned := by
  cases m with
  | creation m => exact .inl m
  | worker hw m => cases m <;> exact .inr ⟨rfl, rfl⟩
  | submission hc hs m =>
    cases m with
    | nudge m => cases m <;> exact .inr ⟨rfl, rfl⟩
    | _ => exact .inr ⟨rfl, rfl⟩
  | reaping hc hs m => exact .inr m.asks
  | nudging hc hs m => cases m <;> exact .inr ⟨rfl, rfl⟩
  | @begin thread request => cases request <;> exact .inr ⟨rfl, rfl⟩
  | stay | release | rouse | rouseReapers => exact .inr ⟨rfl, rfl⟩

/-- A thread was asked for: it is the next one, and it was started or refused. -/
theorem AskedTo.ask {n : Nat} (h : AskedTo spawner p n) (hp : p.Sound)
    (hcreation : p.creation = .spawning n) (hsize : q.size = p.size)
    (hspawned : q.spawned = n :: p.spawned)
    (hasked : q.creation.asked? p.size = some (n + 1))
    (answer : (∃ exit, spawner n = .ok exit) ∧ q.creation.refusal? = none ∨
      ∃ reason, spawner n = .error reason ∧ q.creation.refusal? = some (n, reason)) :
    AskedTo spawner q (n + 1) where
  asked := by rw [hsize, hasked]
  within := by
    rw [hsize]
    exact hp.making.current n (by rw [hcreation]; rfl)
  spawned := by rw [hspawned, h.spawned, List.range_succ, List.reverse_concat]
  accepted i hi := by
    rcases Nat.lt_succ_iff_lt_or_eq.1 hi with before | rfl
    · refine .inl ((h.accepted i before).resolve_right ?_)
      rw [hcreation]
      rintro ⟨reason, ⟨⟩⟩
    · rcases answer with ⟨started, -⟩ | ⟨reason, -, refused⟩
      · exact .inl started
      · exact .inr ⟨reason, refused⟩
  refused i reason hi := by
    rcases answer with ⟨-, none⟩ | ⟨reason', hs, refused⟩
    · rw [none] at hi
      cases hi
    · rw [refused] at hi
      cases hi
      exact hs

theorem AskedTo.creation {n : Nat} (h : AskedTo spawner p n) (hp : p.Sound)
    (same : p.spawner = spawner) (m : CreationMove p log q) :
    q.spawner = spawner ∧ ∃ n, AskedTo spawner q n := by
  have on (hspawner : q.spawner = p.spawner) (hspawned : q.spawned = p.spawned)
      (hasked : q.creation.asked? p.size = p.creation.asked? p.size)
      (hrefusal : q.creation.refusal? = p.creation.refusal?) :
      q.spawner = spawner ∧ ∃ n, AskedTo spawner q n :=
    ⟨hspawner.trans same, n, h.of_eq m.size_eq hspawned hasked hrefusal⟩
  have next {i : Nat} (hcreation : p.creation = .spawning i) : i = n := by
    have asked := h.asked
    rw [hcreation] at asked
    exact Option.some.inj asked
  have size_eq := m.size_eq
  cases m with
  | @spawn i w exit hcreation hw hs =>
    obtain rfl := next hcreation
    exact ⟨same, i + 1, h.ask hp hcreation size_eq rfl rfl (.inl ⟨⟨exit, same ▸ hs⟩, rfl⟩)⟩
  | @refuse i reason hcreation hs =>
    obtain rfl := next hcreation
    exact ⟨same, i + 1, h.ask hp hcreation size_eq rfl rfl (.inr ⟨reason, same ▸ hs, rfl⟩)⟩
  | @store i hcreation =>
    have inside : i < p.size := hp.making.current i (by rw [hcreation]; rfl)
    refine on rfl rfl ?_ ?_ <;> simp only [Creation.prepareFrom, hcreation] <;> split
    · rfl
    · rw [if_pos (by omega)]
      exact congrArg some (by omega)
    · rfl
    · rw [if_pos (by omega)]
      rfl
  | @rollBack i reason r r' s hcreation m =>
    refine on m.asks.1 m.asks.2 ?_ ?_ <;> rw [hcreation] <;> cases r' <;> rfl
  | @drop i reason r r' s hcreation m =>
    refine on m.asks.1 m.asks.2 ?_ ?_ <;> rw [hcreation] <;> cases r' <;> rfl
  | @started i hcreation hs =>
    refine on rfl rfl ?_ ?_ <;> simp only [Creation.awaitFrom, hcreation] <;> split <;> rfl
  | prepare hcreation | undo hcreation | note hcreation | sleep hcreation | announce hcreation =>
    exact on rfl rfl (by rw [hcreation]; rfl) (by rw [hcreation]; rfl)

/-- In every run of a pool with a good configuration, the threads are asked for in order. -/
theorem Reachable.asked (h : Reachable config spawner p) (valid : config.validate = .ok ()) :
    ∃ n, AskedTo spawner p n := by
  refine (h.keep (motive := fun p => p.spawner = spawner ∧ ∃ n, AskedTo spawner p n) ?_ ?_).2
  · rcases create_cases config spawner with ⟨e, made⟩ | ⟨-, made⟩
    · simp [create, valid] at made
    · rw [made]
      exact ⟨rfl, 0, rfl, Nat.zero_le _, rfl, by simp, by simp [Creation.refusal?]⟩
  · rintro p q log a sound - m ⟨same, n, h⟩
    rcases m.asks with made | ⟨hspawner, hspawned⟩
    · exact h.creation sound same made
    · rcases m.creation_eq with made | e | ⟨i, e⟩
      · exact h.creation sound same made
      · exact ⟨hspawner.trans same, n, h.of_eq m.size_eq hspawned (by rw [e]) (by rw [e])⟩
      · exact ⟨hspawner.trans same, n, h.of_eq m.size_eq hspawned (by simp [e]) (by simp [e])⟩

/-! ## What the first refusal decides -/

/-- The first thread that is refused is that of worker `k`. -/
structure RefusesFirst (spawner : Nat → Except StartFailure (Option Payload.Inert)) (k : Nat)
    (reason : StartFailure) : Prop where
  before : ∀ i < k, ∃ exit, spawner i = .ok exit
  refused : spawner k = .error reason

variable {n : Nat}

theorem AskedTo.eq_of_refusal (h : AskedTo spawner p n)
    (refused : p.creation.refusal? = some (k, reason)) : n = k + 1 :=
  Option.some.inj (h.asked.symm.trans (asked?_of_refusal p.size refused))

/-- If a thread was refused, then it was the first one. -/
theorem AskedTo.eq_first (h : AskedTo spawner p n) (first : RefusesFirst spawner k reason)
    {i : Nat} {reason' : StartFailure} (refused : p.creation.refusal? = some (i, reason')) :
    i = k ∧ reason' = reason := by
  have told := h.refused i reason' refused
  have last := h.eq_of_refusal refused
  rcases Nat.lt_trichotomy i k with before | rfl | after
  · obtain ⟨exit, started⟩ := first.before i before
    rw [told] at started
    cases started
  · exact ⟨rfl, Except.error.inj (told.symm.trans first.refused)⟩
  · rcases h.accepted k (by omega) with ⟨exit, started⟩ | ⟨reason, again⟩
    · rw [first.refused] at started
      cases started
    · rw [refused] at again
      cases again
      exact absurd after (Nat.lt_irrefl _)

/-- After the first refusal no more threads are asked for. -/
theorem AskedTo.le_of_first (h : AskedTo spawner p n) (first : RefusesFirst spawner k reason) :
    n ≤ k + 1 := by
  by_contra more
  rcases h.accepted k (by omega) with ⟨exit, started⟩ | ⟨reason, refused⟩
  · rw [first.refused] at started
    cases started
  · exact more (h.eq_of_refusal refused).le

/-- No pool gets ready of which a thread is refused. -/
theorem AskedTo.unready (h : AskedTo spawner p n) (first : RefusesFirst spawner k reason)
    (within : k < p.size) : p.creation ≠ .ready := by
  intro ready
  have asked := h.asked
  rw [ready] at asked
  obtain rfl : p.size = n := Option.some.inj asked
  rcases h.accepted k within with ⟨exit, started⟩ | ⟨reason, refused⟩
  · rw [first.refused] at started
    cases started
  · rw [ready] at refused
    cases refused

/-- Nobody is refused if all threads are started. -/
theorem AskedTo.refusal?_eq_none (h : AskedTo spawner p n)
    (started : ∀ i < p.size, ∃ exit, spawner i = .ok exit) : p.creation.refusal? = none := by
  rw [Option.eq_none_iff_forall_ne_some]
  rintro ⟨i, reason⟩ refused
  have last := h.eq_of_refusal refused
  obtain ⟨exit, accepted⟩ := started i (by have within := h.within; omega)
  rw [h.refused i reason refused] at accepted
  cases accepted

/-- A pool fails for no other reason than a refused thread, once its configuration is accepted. -/
theorem AskedTo.refusal?_of_failed (h : AskedTo spawner p n) {e : Error}
    (failed : p.creation = .failed e) :
    ∃ i reason, e = .spawn i reason ∧ p.creation.refusal? = some (i, reason) := by
  have asked := h.asked
  rw [failed] at asked ⊢
  cases e with
  | spawn i reason => exact ⟨i, reason, rfl, rfl⟩
  | stopped | invalidConfig => cases asked

end Interlock.Pool
