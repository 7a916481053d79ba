import Interlock.Proofs.ReadWrite.Alone
import Interlock.Proofs.ReadWrite.Course
import Interlock.Proofs.ReadWrite.Holdings

/-!
# The reader/writer lock refines the abstract one

Threads share a lock over an ideal raw lock, in any interleaving of their steps, and keep to the
discipline: a thread gives back or lowers only what it holds.  `Custody` keeps who made which of the
recorded calls of the raw lock, and what each thread holds is read off there (`Custody.held`).

The books of the lock are written beside those calls, not with them.  What holds at every moment is
that each thread stands as its place in its operation demands and that the readers are what all
threads account for together (`Custody.Sound`); no step of one thread disturbs another
(`Custody.Sound.step`).  When every operation has ended, this says that the books are exact.
-/

namespace Interlock.ReadWrite

/-- A thread whom the books name as the writer holds the raw lock exclusively. -/
theorem Activity.Booked.writes {a : Activity} {mine : Prop} {h : Held} (b : a.Booked mine h)
    (hm : mine) : h.writes = true := by
  cases a with
  | recording mode =>
    cases mode with
    | read => exact b.2.1 hm
    | write => exact b
  | releasingExclusive | leaving | releasingShared | lowering => exact absurd hm b.1
  | joining | disowning => exact b.2
  | _ => exact b.1 hm

/-- The step of a thread, with its operation at hand. -/
theorem System.step_eq {σ : Type} {raw : Raw σ} {tokens : Tokens} {s : System σ} {thread : Nat}
    {a : Activity} (ha : s.threads[thread]? = some a) :
    s.step raw tokens thread = ⟨(ReadWrite.step raw (tokens.of thread) s.state a).1,
      s.threads.set thread (ReadWrite.step raw (tokens.of thread) s.state a).2⟩ := by
  simp only [System.step, ha]

/-- An attempt is recorded with the raw lock's answer. -/
theorem Activity.call?_answered {σ : Type} {raw : Raw σ} {world : σ} {a : Activity} {mode : Mode}
    {timed granted : Bool} (h : a.call? raw world = some (.attempt mode timed granted)) :
    (raw.attempt mode timed world).1 = granted := by
  cases a with
  | trying | retrying | slicing =>
    simp only [Activity.call?, Option.some.injEq, RawCall.attempt.injEq] at h
    obtain ⟨rfl, rfl, rfl⟩ := h
    rfl
  | _ => cases h

/-- Threads that share a lock over an ideal raw lock. -/
structure Custody where
  system : System Ideal
  /-- The calls of the raw lock, latest first, each with the thread that made it. -/
  record : List (Nat × RawCall) := []
  /-- The operation that each thread was last given, with what it held then. -/
  given : Nat → Option (Operation × Held) := fun _ => none

namespace Custody

variable {tokens : Tokens} {count spinLimit : Nat} {c d : Custody}

/-- The lock's own part. -/
def lock (c : Custody) : ReadWrite := c.system.state.lock

/-- What each thread holds by the calls that were made. -/
def held (c : Custody) : Holdings := .replay c.record

/-- A lock that nobody has touched yet. -/
def fresh (count spinLimit : Nat) : Custody := { system := System.fresh count spinLimit {} }

/-- A thread is given an operation. -/
def begin (t : Nat) (op : Operation) (c : Custody) : Custody where
  system := c.system.start t op
  record := c.record
  given := Function.update c.given t (some (op, c.held t))

/-- A thread takes a step from its place `a` in an operation. -/
def advance (raw : Raw Ideal) (tokens : Tokens) (t : Nat) (a : Activity) (c : Custody) :
    Custody where
  system := c.system.step raw tokens t
  record := (a.call? raw c.system.state.world).toList.map (t, ·) ++ c.record
  given := c.given

theorem system_begin {t : Nat} (op : Operation) (free : c.system.isFree t = true) :
    (c.begin t op).system = ⟨c.system.state, c.system.threads.set t op.start⟩ := by
  simp only [begin, System.start, free, ↓reduceIte]

@[simp] theorem held_begin (t : Nat) (op : Operation) (c : Custody) :
    (c.begin t op).held = c.held := rfl

/-- The step of a thread is one of its operation. -/
theorem system_advance (raw : Raw Ideal) (tokens : Tokens) {t : Nat} {a : Activity}
    (here : c.system.threads[t]? = some a) :
    (c.advance raw tokens t a).system = ⟨(ReadWrite.step raw (tokens.of t) c.system.state a).1,
      c.system.threads.set t (ReadWrite.step raw (tokens.of t) c.system.state a).2⟩ :=
  System.step_eq here

/-- A step changes what is held by the call that it makes. -/
@[simp] theorem held_advance (raw : Raw Ideal) (tokens : Tokens) (t : Nat) (a : Activity)
    (c : Custody) :
    (c.advance raw tokens t a).held = c.held.next t (a.call? raw c.system.state.world) := by
  unfold held advance
  cases a.call? raw c.system.state.world <;> rfl

/-- A move of the system.  The raw lock may refuse what it likes, and each time anew. -/
inductive Step (tokens : Tokens) : Custody → System.Move → Custody → Prop
  | start {c : Custody} {thread : Nat} {op : Operation} (free : c.system.isFree thread = true)
      (fits : op.Fits (c.held thread)) :
      Step tokens c (.start thread op) (c.begin thread op)
  | step {c : Custody} {thread : Nat} {a : Activity} (raw : Raw Ideal)
      (governs : Ideal.Governs raw) (here : c.system.threads[thread]? = some a) :
      Step tokens c (.step thread) (c.advance raw tokens thread a)

/-- Moves of the threads, with the record that grows along them. -/
inductive Run (tokens : Tokens) (c : Custody) : List System.Move → Custody → Prop
  | refl : Run tokens c [] c
  | tail {moves : List System.Move} {m : System.Move} {d e : Custody}
      (run : Run tokens c moves d) (step : Step tokens d m e) : Run tokens c (moves ++ [m]) e

theorem Run.append {moves later : List System.Move} {e : Custody} (run : Run tokens c moves d)
    (onwards : Run tokens d later e) : Run tokens c (moves ++ later) e := by
  induction onwards with
  | refl => rwa [List.append_nil]
  | tail _ step ih =>
    rw [← List.append_assoc]
    exact ih.tail step

/-- The readers that a thread accounts for in the books. -/
def reads (c : Custody) (t : Nat) : Nat :=
  match c.system.threads[t]? with
  | some a => a.reads (c.held t)
  | none => 0

theorem reads_eq {t : Nat} {a : Activity} (here : c.system.threads[t]? = some a) :
    c.reads t = a.reads (c.held t) := by
  simp only [reads, here]

/-- What holds at every moment. -/
structure Sound (tokens : Tokens) (count : Nat) (c : Custody) : Prop where
  threads : c.system.threads.length = count
  recorded : c.record.map Prod.snd = c.system.state.calls
  exclusive : c.held.Exclusive
  shown : c.system.state.world.Shows count c.held
  stands : ∀ t a, c.system.threads[t]? = some a →
    Stands (c.given t) (c.lock.owner = tokens.of t) a (c.held t)
  owner : c.lock.owner = 0 ∨ ∃ t, t < count ∧ c.lock.owner = tokens.of t
  readers : c.lock.readers = ∑ t ∈ Finset.range count, c.reads t

namespace Sound

/-- In the beginning nobody holds anything, and nothing was called. -/
theorem fresh (tokens : Tokens) (count spinLimit : Nat) :
    Sound tokens count (fresh count spinLimit) where
  threads := List.length_replicate
  recorded := rfl
  exclusive := Holdings.Exclusive.of_unwritten fun _ => rfl
  shown := by
    refine ⟨Ideal.Shows.writer_iff rfl fun _ => rfl, ?_, fun _ _ => rfl⟩
    exact (Finset.sum_eq_zero fun _ _ => rfl).symm
  stands := by
    intro t a here
    have ended : a = .finished .released := List.eq_of_mem_replicate (List.mem_of_getElem? here)
    subst ended
    refine ⟨?_, trivial, fun op h₀ asked => by cases asked⟩
    refine ⟨fun mine => absurd mine.symm (tokens.ne_zero t), fun writes => by cases writes⟩
  owner := .inl rfl
  readers := by
    refine (Finset.sum_eq_zero fun t ht => ?_).symm
    have here : (Custody.fresh count spinLimit).system.threads[t]? = some (.finished .released) :=
      List.getElem?_replicate_of_lt (Finset.mem_range.1 ht)
    rw [reads_eq here]
    rfl

variable {t u : Nat} {a : Activity}

theorem inside (h : Sound tokens count c) (here : c.system.threads[t]? = some a) : t < count := by
  rw [← h.threads]
  exact (List.getElem?_eq_some_iff.1 here).1

/-- No thread accounts for more readers than the books show. -/
theorem reads_le (h : Sound tokens count c) (here : c.system.threads[t]? = some a) :
    a.reads (c.held t) ≤ c.lock.readers := by
  rw [h.readers, ← reads_eq here]
  exact Finset.single_le_sum (fun _ _ => Nat.zero_le _) (Finset.mem_range.2 (h.inside here))

/-- The books never show more readers than the raw lock has shares, but for the one that its writer
counts before it lowers the lock. -/
theorem readers_le_shares (h : Sound tokens count c) :
    c.lock.readers ≤ c.system.state.world.shares + c.system.state.world.writer.toNat := by
  have each : ∀ u ∈ Finset.range count,
      c.reads u ≤ (c.held u).shares + (c.held u).writes.toNat := by
    intro u hu
    obtain ⟨a, here⟩ : ∃ a, c.system.threads[u]? = some a :=
      ⟨_, List.getElem?_eq_getElem (by rw [h.threads]; exact Finset.mem_range.1 hu)⟩
    rw [reads_eq here]
    exact (h.stands u a here).booked.reads_le
  have writers : ∑ u ∈ Finset.range count, (c.held u).writes.toNat ≤
      c.system.state.world.writer.toNat := by
    cases writer : c.system.state.world.writer with
    | false =>
      refine (Finset.sum_eq_zero fun u _ => ?_).le
      rw [h.shown.unwritten writer u]
      rfl
    | true =>
      obtain ⟨t, writes⟩ := h.shown.writer.1 writer
      have alone : ∑ u ∈ Finset.range count, (c.held u).writes.toNat = (c.held t).writes.toNat := by
        refine Finset.sum_eq_single t (fun u _ other => ?_) fun outside => ?_
        · rw [h.exclusive.others_unwritten writes u other]
          rfl
        · rw [h.shown.outside t (by simpa using outside)]
          rfl
      rw [alone, writes]
  calc c.lock.readers = ∑ u ∈ Finset.range count, c.reads u := h.readers
    _ ≤ ∑ u ∈ Finset.range count, ((c.held u).shares + (c.held u).writes.toNat) :=
      Finset.sum_le_sum each
    _ = c.system.state.world.shares + ∑ u ∈ Finset.range count, (c.held u).writes.toNat := by
      rw [Finset.sum_add_distrib, h.shown.shares]
    _ ≤ _ := Nat.add_le_add_left writers _

/-- Beginning an operation keeps everything sound. -/
theorem start (h : Sound tokens count c) {op : Operation} (free : c.system.isFree t = true)
    (fits : op.Fits (c.held t)) :
    Sound tokens count (c.begin t op) := by
  obtain ⟨r, here⟩ := System.isFree_iff.1 free
  have bound := (List.getElem?_eq_some_iff.1 here).1
  have system := system_begin op free
  have mine : (c.begin t op).system.threads[t]? = some op.start := by
    rw [system, List.getElem?_set_self bound]
  have others {u : Nat} (other : u ≠ t) :
      (c.begin t op).system.threads[u]? = c.system.threads[u]? := by
    rw [system, List.getElem?_set_ne (Ne.symm other)]
  have lock : (c.begin t op).lock = c.lock := by simp only [Custody.lock, system]
  refine ⟨?_, ?_, h.exclusive, ?_, ?_, ?_, ?_⟩
  · rw [system, List.length_set, h.threads]
  · rw [system]
    exact h.recorded
  · rw [system]
    exact h.shown
  · intro u a there
    rw [lock, held_begin]
    by_cases same : u = t
    · subst same
      obtain rfl := Option.some.inj (mine.symm.trans there)
      simp only [begin, Function.update_self]
      exact fits.stands (h.stands u _ here).booked
    · simp only [begin, Function.update_of_ne same]
      exact h.stands u a (others same ▸ there)
  · rw [lock]
    exact h.owner
  · rw [lock]
    refine h.readers.trans (Finset.sum_congr rfl fun u _ => ?_)
    by_cases same : u = t
    · subst same
      rw [reads_eq here, reads_eq mine]
      exact (Activity.reads_of_isExact op.isExact_start _).symm
    · simp only [reads, others same, held_begin]

/-- A call that a thread makes follows the rule of the abstract lock. -/
theorem call (h : Sound tokens count c) {raw : Raw Ideal} (governs : Ideal.Governs raw)
    (here : c.system.threads[t]? = some a) {call : RawCall}
    (made : a.call? raw c.system.state.world = some call) :
    c.held.Allows t call ∧
      (raw.after c.system.state.world (some call)).Shows count (c.held.after t call) := by
  have stride := step_stride raw (tokens.of t) c.system.state a
  refine h.shown.after governs h.exclusive (h.inside here) ?_
    (stride.permits (h.stands t a here).booked made)
  rintro mode timed granted rfl
  exact Activity.call?_answered made

/-- A step of one thread does not change whether the books name another one as the writer. -/
theorem owner_iff (h : Sound tokens count c) {o : Nat}
    (changed : o = c.lock.owner ∨ (o = tokens.of t ∧ (c.held t).writes = true) ∨
      c.lock.owner = tokens.of t ∧ o = 0)
    (other : u ≠ t) {b : Activity} (there : c.system.threads[u]? = some b) :
    c.lock.owner = tokens.of u ↔ o = tokens.of u := by
  have distinct : tokens.of t ≠ tokens.of u := fun same => other (tokens.inj same).symm
  rcases changed with rfl | ⟨rfl, writes⟩ | ⟨mine, rfl⟩
  · exact Iff.rfl
  · -- the thread becomes the writer in the books as it holds the raw lock, so the other does not
    refine ⟨fun named => ?_, fun same => absurd same distinct⟩
    have writes' := (h.stands u b there).booked.writes named
    exact absurd (h.exclusive.eq_of_writes writes writes') other
  · rw [mine]
    exact ⟨fun same => absurd same distinct, fun zero => absurd zero.symm (tokens.ne_zero u)⟩

/-- After a step the readers are still those that the threads count among them. -/
theorem readers_advance (h : Sound tokens count c) (raw : Raw Ideal)
    (here : c.system.threads[t]? = some a) :
    (c.advance raw tokens t a).lock.readers =
      ∑ u ∈ Finset.range count, (c.advance raw tokens t a).reads u := by
  have stride := step_stride raw (tokens.of t) c.system.state a
  have standing := h.stands t a here
  have bound : t < c.system.threads.length := (List.getElem?_eq_some_iff.1 here).1
  have others : ∀ u, u ≠ t → (c.advance raw tokens t a).reads u = c.reads u := by
    intro u other
    simp only [reads, system_advance raw tokens here, List.getElem?_set_ne (Ne.symm other),
      held_advance, Holdings.next_of_ne other]
  have sum := sum_range_of_eq_off (h.inside here) others
  have counted := stride.reads standing.booked (by rintro rfl -; exact standing.backed)
  have before := h.readers
  rw [reads_eq here] at sum
  have mine : (c.advance raw tokens t a).reads t =
      (ReadWrite.step raw (tokens.of t) c.system.state a).2.reads
        ((c.held t).next (a.call? raw c.system.state.world)) := by
    simp only [reads, system_advance raw tokens here, List.getElem?_set_self bound, held_advance,
      Holdings.next_self]
  have moved : (c.advance raw tokens t a).lock.readers =
      (ReadWrite.step raw (tokens.of t) c.system.state a).1.lock.readers := by
    simp only [lock, system_advance raw tokens here]
  simp only [lock] at before moved ⊢
  omega

/-- A step of a thread keeps everything sound. -/
theorem step (h : Sound tokens count c) {raw : Raw Ideal} (governs : Ideal.Governs raw)
    (here : c.system.threads[t]? = some a) :
    Sound tokens count (c.advance raw tokens t a) := by
  have stride := step_stride raw (tokens.of t) c.system.state a
  have standing := h.stands t a here
  have counted := h.reads_le here
  have bound : t < c.system.threads.length := (List.getElem?_eq_some_iff.1 here).1
  have system := system_advance raw tokens here
  refine ⟨?_, ?_, ?_, ?_, ?_, ?_, h.readers_advance raw here⟩
  · rw [system, List.length_set, h.threads]
  · rw [system, step_calls, ← h.recorded]
    simp [advance]
  · rw [held_advance]
    cases made : a.call? raw c.system.state.world with
    | none => exact h.exclusive
    | some call => exact h.exclusive.after (h.call governs here made).1
  · rw [system, held_advance, step_world]
    cases made : a.call? raw c.system.state.world with
    | none => exact h.shown
    | some call => exact (h.call governs here made).2
  · intro u b there
    rw [held_advance, lock, system]
    rw [system] at there
    by_cases same : u = t
    · subst same
      rw [List.getElem?_set_self bound] at there
      obtain rfl := Option.some.inj there
      rw [Holdings.next_self]
      exact stride.stands (tokens.ne_zero u) standing counted
    · -- another thread stands on what it holds and on whether the books name it, both unmoved
      rw [List.getElem?_set_ne (Ne.symm same)] at there
      have unmoved := h.owner_iff (stride.owner standing.booked) same there
      have kept := h.stands u b there
      rw [propext unmoved] at kept
      rw [Holdings.next_of_ne same]
      exact kept
  · rw [lock, system]
    rcases stride.owner standing.booked with same | ⟨mine, -⟩ | ⟨-, nobody⟩
    · rw [same]
      exact h.owner
    · exact .inr ⟨t, h.inside here, mine⟩
    · exact .inl nobody

end Sound

theorem Step.sound {m : System.Move} (st : Step tokens c m d) (h : Sound tokens count c) :
    Sound tokens count d := by
  cases st with
  | start free fits => exact h.start free fits
  | step raw governs here => exact h.step governs here

/-- Everything is sound after every run. -/
theorem Run.sound {moves : List System.Move} (run : Run tokens c moves d)
    (h : Sound tokens count c) : Sound tokens count d := by
  induction run with
  | refl => exact h
  | tail run step ih => exact step.sound ih

/-- A move makes no call of the raw lock, or one that the rule of the abstract lock allows. -/
theorem Step.abstract {m : System.Move} (st : Step tokens c m d) (h : Sound tokens count c) :
    d.record = c.record ∨ ∃ t call, m = .step t ∧ c.held.Allows t call ∧
      d.record = (t, call) :: c.record := by
  cases st with
  | start free fits => exact .inl rfl
  | @step t a raw governs here =>
    cases made : a.call? raw c.system.state.world with
    | none =>
      left
      simp [advance, made]
    | some call =>
      refine .inr ⟨t, call, rfl, (h.call governs here made).1, ?_⟩
      simp [advance, made]

/-! ## Between operations -/

/-- No operation is in progress. -/
def AtRest (c : Custody) : Prop :=
  ∀ t, t < c.system.threads.length → c.system.isFree t = true

section AtRest

variable {t : Nat}

/-- Between operations the owner is the thread that writes. -/
theorem Sound.owner_eq_iff (h : Sound tokens count c) (rest : c.AtRest) (t : Nat) :
    c.lock.owner = tokens.of t ↔ (c.held t).writes = true := by
  by_cases inside : t < count
  · obtain ⟨r, here⟩ := System.isFree_iff.1 (rest t (by rwa [h.threads]))
    exact (h.stands t _ here).booked
  · rw [h.shown.outside t (Nat.le_of_not_lt inside)]
    refine ⟨fun named => ?_, fun writes => by cases writes⟩
    rcases h.owner with nobody | ⟨u, bound, other⟩
    · exact absurd (named.symm.trans nobody) (tokens.ne_zero t)
    · rw [tokens.inj (named.symm.trans other)] at inside
      exact absurd bound inside

/-- Between operations the readers are the shares that are held. -/
theorem Sound.readers_eq (h : Sound tokens count c) (rest : c.AtRest) :
    c.lock.readers = ∑ t ∈ Finset.range count, (c.held t).shares := by
  refine h.readers.trans (Finset.sum_congr rfl fun t ht => ?_)
  obtain ⟨r, here⟩ := System.isFree_iff.1 (rest t (by rw [h.threads]; exact Finset.mem_range.1 ht))
  exact reads_eq here

/-- While nobody writes, the books name nobody, at every moment. -/
theorem Sound.owner_eq_zero (h : Sound tokens count c)
    (unwritten : ∀ t, (c.held t).writes = false) :
    c.lock.owner = 0 := by
  rcases h.owner with nobody | ⟨t, bound, mine⟩
  · exact nobody
  · rw [← h.threads] at bound
    have writes := (h.stands t _ (List.getElem?_eq_getElem bound)).booked.writes mine
    rw [unwritten t] at writes
    cases writes

/-- A thread that holds nothing cannot release while no share is held. -/
theorem Sound.stray_release (h : Sound tokens count c) (rest : c.AtRest) (raw : Raw Ideal)
    (inside : t < count) (unheld : (c.held t).writes = false)
    (none : ∀ u, (c.held u).shares = 0) :
    c.system.call raw tokens t .release = (some (.failed .unlockUnheld),
      ⟨c.system.state.report (.error (Fault.unlockUnheld).message),
        c.system.threads.set t (.finished (.failed .unlockUnheld))⟩) := by
  have free := rest t (by rwa [h.threads])
  have other : ¬ c.system.state.lock.owner = tokens.of t := by
    intro mine
    rw [(h.owner_eq_iff rest t).1 mine] at unheld
    cases unheld
  have readers : c.system.state.lock.readers = 0 :=
    (h.readers_eq rest).trans (Finset.sum_eq_zero fun u _ => none u)
  rw [System.call_eq free, operate_release, State.released, if_neg other, if_pos readers]
  rfl

/-- A thread that does not write cannot lower the lock. -/
theorem Sound.stray_downgrade (h : Sound tokens count c) (rest : c.AtRest) (raw : Raw Ideal)
    (inside : t < count) (unheld : (c.held t).writes = false) :
    c.system.call raw tokens t .downgrade = (some (.failed .downgradeUnheld),
      ⟨c.system.state.report (.error (Fault.downgradeUnheld).message),
        c.system.threads.set t (.finished (.failed .downgradeUnheld))⟩) := by
  have free := rest t (by rwa [h.threads])
  have other : ¬ c.system.state.lock.owner = tokens.of t := by
    intro mine
    rw [(h.owner_eq_iff rest t).1 mine] at unheld
    cases unheld
  rw [System.call_eq free, operate_downgrade, State.lowered, if_neg other]
  rfl

end AtRest

/-! ## After a downgrade -/

/-- A thread that begins no release keeps a share. -/
theorem Run.keeps {moves : List System.Move} {t : Nat} {a : Activity} (run : Run tokens c moves d)
    (here : c.system.threads[t]? = some a) (ha : a.isReleasing = false)
    (shared : 0 < (c.held t).shares) (unreleased : .start t .release ∉ moves) :
    ∃ b, d.system.threads[t]? = some b ∧ b.isReleasing = false ∧ 0 < (d.held t).shares := by
  induction run with
  | refl => exact ⟨a, here, ha, shared⟩
  | tail run step ih =>
    obtain ⟨b, here', hb, shared'⟩ := ih fun earlier => unreleased (List.mem_append_left _ earlier)
    have bound := (List.getElem?_eq_some_iff.1 here').1
    cases step with
    | @start u op free fits =>
      rw [system_begin op free, held_begin]
      by_cases same : t = u
      · subst same
        refine ⟨op.start, List.getElem?_set_self bound, ?_, shared'⟩
        cases op with
        | acquire | downgrade => rfl
        | release => exact absurd (List.mem_append_right _ List.mem_cons_self) unreleased
      · exact ⟨b, by rwa [List.getElem?_set_ne (Ne.symm same)], hb, shared'⟩
    | @step u b' raw governs there =>
      rw [system_advance raw tokens there, held_advance]
      by_cases same : t = u
      · subst same
        obtain rfl : b = b' := Option.some.inj (here'.symm.trans there)
        obtain ⟨goesOn, kept⟩ := (step_stride raw (tokens.of t) _ b).keeps hb
        refine ⟨_, List.getElem?_set_self bound, goesOn, ?_⟩
        rw [Holdings.next_self]
        exact Nat.lt_of_lt_of_le shared' kept
      · refine ⟨b, by rwa [List.getElem?_set_ne (Ne.symm same)], hb, ?_⟩
        rwa [Holdings.next_of_ne same]

end Custody

/-- **The reader/writer lock refines the abstract one.**  Over an ideal raw lock, however the steps
of the threads interleave, as long as each gives back or lowers only what it holds:
what the threads hold by the recorded calls of the raw lock is what the raw lock has given out, and
the books show no reader beyond that but a writer's own; every move makes no call or one that the
rule of the abstract lock allows its thread, so a writer is always alone; between operations the
books name exactly the writer and count exactly the shares; an operation that has ended did to its
thread's holdings what it was for, and a release gave back the thread's own mode; from a downgrade
to the thread's next release nobody writes.  Between operations, a release by a thread that holds
nothing while no share is held, and a downgrade by a thread that does not write, fail and leave
nothing but a line in the log. -/
theorem Custody.refines {tokens : Tokens} {count spinLimit : Nat} {moves : List System.Move}
    {c : Custody} (run : Run tokens (fresh count spinLimit) moves c) :
    (c.record.map Prod.snd = c.system.state.calls ∧
      c.system.state.world.Shows count c.held ∧
      c.lock.readers ≤ c.system.state.world.shares + c.system.state.world.writer.toNat) ∧
    (∀ m d, Step tokens c m d → d.record = c.record ∨ ∃ t call, m = .step t ∧
      c.held.Allows t call ∧ d.record = (t, call) :: c.record) ∧
    c.held.Exclusive ∧
    (c.AtRest →
      (∀ t, c.lock.owner = tokens.of t ↔ (c.held t).writes = true) ∧
      (c.lock.owner = 0 ↔ ∀ t, (c.held t).writes = false) ∧
      c.lock.readers = ∑ t ∈ Finset.range count, (c.held t).shares) ∧
    (∀ t op h r, c.given t = some (op, h) → c.system.threads[t]? = some (.finished r) →
      op.Ends h r (c.held t)) ∧
    (∀ t a, c.system.threads[t]? = some a → a.isLowered = true → ∀ moves d, Run tokens c moves d →
      .start t .release ∉ moves → (∀ u, (d.held u).writes = false) ∧ d.lock.owner = 0) ∧
    (c.AtRest → ∀ raw t, t < count → (c.held t).writes = false →
      ((∀ u, (c.held u).shares = 0) →
        c.system.call raw tokens t .release = (some (.failed .unlockUnheld),
          ⟨c.system.state.report (.error (Fault.unlockUnheld).message),
            c.system.threads.set t (.finished (.failed .unlockUnheld))⟩)) ∧
      c.system.call raw tokens t .downgrade = (some (.failed .downgradeUnheld),
        ⟨c.system.state.report (.error (Fault.downgradeUnheld).message),
          c.system.threads.set t (.finished (.failed .downgradeUnheld))⟩)) := by
  have sound : Sound tokens count c := run.sound (Sound.fresh tokens count spinLimit)
  refine ⟨⟨sound.recorded, sound.shown, sound.readers_le_shares⟩,
    fun m d step => step.abstract sound, sound.exclusive, ?_, ?_, ?_, ?_⟩
  · intro rest
    refine ⟨sound.owner_eq_iff rest, ⟨fun nobody t => ?_, sound.owner_eq_zero⟩,
      sound.readers_eq rest⟩
    refine Bool.eq_false_iff.2 fun writes => ?_
    have mine := (sound.owner_eq_iff rest t).2 writes
    exact tokens.ne_zero t (mine.symm.trans nobody)
  · intro t op h r asked ended
    exact ((sound.stands t _ ended).course op h asked).ends
  · intro t a here lowered moves d later unreleased
    have shared := (Activity.backed_iff_of_isLowered lowered _).1 (sound.stands t a here).backed
    have idle : a.isReleasing = false := by cases a <;> trivial
    obtain ⟨b, -, -, kept⟩ := later.keeps here idle shared unreleased
    have after : Sound tokens count d := later.sound sound
    have unwritten := after.exclusive.writes_eq_false kept
    exact ⟨unwritten, after.owner_eq_zero unwritten⟩
  · intro rest raw t inside unheld
    exact ⟨sound.stray_release rest raw inside unheld,
      sound.stray_downgrade rest raw inside unheld⟩

section Example

variable {tokens : Tokens} {c d : Custody} {moves : List System.Move}

/-- Where a run has come to, a new one may begin. -/
theorem Custody.Run.stay (_ : Run tokens c moves d) : Run tokens d [] d := .refl

theorem Custody.Run.begin (run : Run tokens c moves d) (t : Nat) (op : Operation)
    (free : d.system.isFree t = true) (fits : op.Fits (d.held t)) :
    Run tokens c (moves ++ [.start t op]) (d.begin t op) :=
  run.tail (.start free fits)

theorem Custody.Run.advance (run : Run tokens c moves d) (t : Nat) (a : Activity)
    (here : d.system.threads[t]? = some a) :
    Run tokens c (moves ++ [.step t]) (d.advance Ideal.raw tokens t a) :=
  run.tail (.step Ideal.raw Ideal.governs_raw here)

/-- One thread writes and lowers its lock, and another one is let in to read.  Then the first one
releases. -/
theorem Custody.exists_lowered :
    ∃ moves c later d, Run .numbered (fresh 2 0) moves c ∧ Run .numbered c later d ∧
      c.system.threads = [.finished .lowered, .finished (.acquired .read)] ∧
      c.held 0 = ⟨false, 1⟩ ∧ c.held 1 = ⟨false, 1⟩ ∧
      d.system.threads = [.finished .released, .finished (.acquired .read)] ∧
      d.given 0 = some (.release, ⟨false, 1⟩) ∧ d.held 1 = ⟨false, 1⟩ := by
  have start : Run .numbered (fresh 2 0) [] (fresh 2 0) := .refl
  have wrote := ((start.begin 0 (.acquire .forWriting) rfl trivial).advance 0
    (.trying ⟨.write, true⟩ []) rfl).advance 0 (.recording .write) rfl
  have handed := (((wrote.begin 0 .downgrade rfl rfl).advance 0 .checking rfl).advance 0
    .joining rfl).advance 0 .disowning rfl
  have lowered := ((handed.advance 0 .lowering rfl).advance 0 .countingDowngrade rfl).advance 0
    .notingDowngrade rfl
  have joined := ((lowered.begin 1 (.acquire .tryForReading) rfl trivial).advance 1
    (.trying ⟨.read, false⟩ []) rfl).advance 1 (.recording .read) rfl
  have released := (((joined.stay.begin 0 .release rfl (.inr Nat.one_pos)).advance 0 .releasing
    rfl).advance 0 .leaving rfl).advance 0 .releasingShared rfl
  exact ⟨_, _, _, _, joined, released, rfl, rfl, rfl, rfl, rfl, rfl⟩

/-- Then there are two readers and no writer, nobody can write until the first one releases, and the
second one cannot lower the lock.  The release gives back one share of the raw lock, by one call. -/
theorem Custody.refines_of_lowered :
    ∃ moves c later d, Run .numbered (fresh 2 0) moves c ∧ c.AtRest ∧ c.lock.owner = 0 ∧
      c.lock.readers = 2 ∧
      (∀ later d, Run .numbered c later d → .start 0 .release ∉ later → d.lock.owner = 0) ∧
      (c.system.call Ideal.raw .numbered 1 .downgrade).1 = some (.failed .downgradeUnheld) ∧
      Run .numbered c later d ∧ d.held 0 = {} ∧ d.system.state.world.shares = 1 := by
  obtain ⟨moves, c, later, d, run, onwards, threads, first, second, after, asked, still⟩ :=
    exists_lowered
  obtain ⟨-, -, -, books, -, kept, strays⟩ := refines run
  obtain ⟨⟨-, shown, -⟩, -, -, -, ends, -⟩ := refines (run.append onwards)
  have gone : d.held 0 = {} := (ends 0 .release ⟨false, 1⟩ .released asked (by rw [after]; rfl)).2
  have rest : AtRest c := by
    intro t inside
    rw [threads] at inside
    match t, inside with
    | 0, _ => simp [System.isFree, threads]
    | 1, _ => simp [System.isFree, threads]
  have unwritten := kept 0 (.finished .lowered) (by rw [threads]; rfl) rfl
  refine ⟨moves, c, later, d, run, rest, (unwritten [] c .refl List.not_mem_nil).2, ?_, ?_, ?_,
    onwards, gone, ?_⟩
  · rw [(books rest).2.2, Finset.sum_range_succ, Finset.sum_range_one, first, second]
    rfl
  · exact fun later d onwards unreleased => (unwritten later d onwards unreleased).2
  · rw [(strays rest Ideal.raw 1 (by decide) (by rw [second])).2]
  · rw [shown.shares, Finset.sum_range_succ, Finset.sum_range_one, gone, still]
    rfl

end Example

end Interlock.ReadWrite
