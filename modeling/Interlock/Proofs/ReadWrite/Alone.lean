import Interlock.Proofs.ReadWrite.Steps

/-!
# Operations that nobody disturbs

A thread that is left alone carries its operation on until it ends or waits for another thread.
What a release or a downgrade does then is written out (`operate_release`, `operate_downgrade`).
An acquisition can go on for long, and a raw lock that refuses without end keeps it going for ever.
One whose refused slices use up its patience does not (`Yields`): the steps that are left
(`cost`) become fewer with each step, so that the steps that `operate` allows suffice for any
operation (`operate_ends`).
-/

namespace Interlock.ReadWrite

variable {σ : Type} {raw : Raw σ} {me : Nat}

/-! ## Driving a thread on -/

/-- What every step keeps is kept when a thread is driven on. -/
theorem drive_induction {P : State σ → Activity → Prop}
    (kept : ∀ s a, P s a → P (step raw me s a).1 (step raw me s a).2) (n : Nat) {s : State σ}
    {a : Activity} (h : P s a) :
    P (drive raw me n (s, a)).1 (drive raw me n (s, a)).2 := by
  induction n generalizing s a with
  | zero => exact h
  | succ n ih =>
    simp only [drive]
    split
    · exact h
    · exact ih (kept s a h)

theorem drive_finished (n : Nat) (s : State σ) (r : Result) :
    drive raw me n (s, .finished r) = (s, .finished r) := by
  cases n <;> rfl

/-- A thread that does not wait for another one goes on by a step. -/
theorem drive_step (n : Nat) {s : State σ} {a : Activity}
    (unsettled : a.isSettled raw s.world = false) :
    drive raw me (n + 1) (s, a) = drive raw me n (step raw me s a) := by
  simp [drive, unsettled]

/-- A lock after a release by the thread with token `me`. -/
def State.released (raw : Raw σ) (me : Nat) (s : State σ) : State σ × Result :=
  if s.lock.owner = me then
    ((s.modify fun l => { l with owner := 0 }).call .unlockExclusive raw.unlockExclusive, .released)
  else if s.lock.readers = 0 then
    (s.report (.error (Fault.unlockUnheld).message), .failed .unlockUnheld)
  else
    ((s.modify fun l => { l with readers := l.readers - 1 }).call .unlockShared raw.unlockShared,
      .released)

theorem operate_release (s : State σ) :
    operate raw me .release s = ((s.released raw me).1, .finished (s.released raw me).2) := by
  have enough : fuel raw s = 4 * (s.lock.spinLimit + raw.patience s.world) + 29 + 1 + 1 + 1 := rfl
  rw [operate, enough, Operation.start, drive_step _ rfl]
  by_cases mine : s.lock.owner = me
  · simp only [step, mine, ↓reduceIte, State.released]
    rw [drive_step _ rfl]
    exact drive_finished _ _ _
  · rw [step, if_neg mine, State.released, if_neg mine, drive_step _ rfl]
    cases hr : s.lock.readers with
    | zero =>
      simp only [step, hr, ↓reduceIte]
      exact drive_finished _ _ _
    | succ readers =>
      simp only [step, hr, Nat.succ_ne_zero, ↓reduceIte, State.modify, Nat.add_sub_cancel]
      rw [drive_step _ rfl]
      exact drive_finished _ _ _

/-- A lock after a downgrade by the thread with token `me`. -/
def State.lowered (raw : Raw σ) (me : Nat) (s : State σ) : State σ × Result :=
  if s.lock.owner = me then
    ((((s.modify fun l => { l with owner := 0, readers := l.readers + 1 }).call .downgrade
        raw.downgrade).modify fun l => { l with downgraded := l.downgraded.increment }).note
      "downgraded write -> read", .lowered)
  else (s.report (.error (Fault.downgradeUnheld).message), .failed .downgradeUnheld)

theorem operate_downgrade (s : State σ) :
    operate raw me .downgrade s = ((s.lowered raw me).1, .finished (s.lowered raw me).2) := by
  have enough : fuel raw s =
    4 * (s.lock.spinLimit + raw.patience s.world) + 26 + 1 + 1 + 1 + 1 + 1 + 1 := rfl
  rw [operate, enough, Operation.start, drive_step _ rfl]
  by_cases mine : s.lock.owner = me
  · rw [step, if_pos mine, State.lowered, if_pos mine]
    rw [drive_step _ rfl, step, drive_step _ rfl, step, drive_step _ rfl, step, drive_step _ rfl,
      step, drive_step _ rfl, step]
    exact drive_finished _ _ _
  · rw [step, if_neg mine, State.lowered, if_neg mine]
    exact drive_finished _ _ _

/-! ## Acquisitions come to an end -/

/-- A raw lock that grants in the end: no slice waits for another thread, and each refused one uses
up patience, which attempts at once do not bring back. -/
structure Yields (raw : Raw σ) : Prop where
  unblocked : ∀ mode world, raw.blocked mode world = false
  kept : ∀ mode world, raw.patience (raw.attempt mode false world).2 ≤ raw.patience world
  spent : ∀ mode world, (raw.attempt mode true world).1 = false →
    raw.patience (raw.attempt mode true world).2 < raw.patience world

/-- The steps that an activity takes at most, when so many attempts come between the first one and
the slices and so many slices are refused. -/
def cost (spins patience : Nat) : Activity → Nat
  | .trying _ rest => 2 * spins + 3 * patience + 3 * rest.length + 5
  | .counting _ rest => 2 * spins + 3 * patience + 3 * rest.length + 4
  | .noting _ rest => 2 * spins + 3 * patience + 3 * rest.length + 3
  | .spinning _ left => 2 * left + 3 * patience + 4
  | .retrying _ left => 2 * left + 3 * patience + 3
  | .slicing _ => 3 * patience + 2
  | .tallying _ => 3 * patience + 4
  | .waitingOn _ => 3 * patience + 3
  | .recording _ => 1
  | .releasing => 3
  | .leaving => 2
  | .releasingExclusive | .releasingShared => 1
  | .checking => 6
  | .joining => 5
  | .disowning => 4
  | .lowering => 3
  | .countingDowngrade => 2
  | .notingDowngrade => 1
  | .finished _ => 0

theorem cost_spinOn (spins patience : Nat) (mode : Mode) (left : Nat) :
    cost spins patience (.spinOn mode left) = 2 * left + 3 * patience + 2 := by
  cases left with
  | zero => simp [Activity.spinOn, cost]
  | succ left =>
    simp only [Activity.spinOn, cost]
    omega

theorem cost_proceed_le (spins patience : Nat) (rest : List Stage) :
    cost spins patience (.proceed rest) ≤ 2 * spins + 3 * patience + 3 * rest.length + 2 := by
  cases rest with
  | nil => exact Nat.zero_le _
  | cons stage rest =>
    simp only [Activity.proceed, cost, List.length_cons]
    omega

/-- The steps that a thread still takes at most. -/
def State.cost (raw : Raw σ) (s : State σ) (a : Activity) : Nat :=
  ReadWrite.cost s.lock.spinLimit (raw.patience s.world) a

theorem cost_step (yields : Yields raw) {s : State σ} {a : Activity}
    (unsettled : a.isSettled raw s.world = false) :
    (step raw me s a).1.cost raw (step raw me s a).2 < s.cost raw a := by
  cases a with
  | trying stage rest =>
    have kept := yields.kept stage.mode s.world
    rcases h : raw.attempt stage.mode false s.world with ⟨_ | _, w⟩
    all_goals
      rw [h] at kept
      dsimp only at kept
      simp only [step, State.attempt, h, State.cost, cost]
      omega
  | retrying mode left =>
    have kept := yields.kept mode s.world
    rcases h : raw.attempt mode false s.world with ⟨_ | _, w⟩
    · rw [h] at kept
      dsimp only at kept
      simp only [step, State.attempt, h, State.cost, cost_spinOn]
      simp only [cost]
      omega
    · simp only [step, State.attempt, h, State.cost, cost]
      omega
  | slicing mode =>
    have spent := yields.spent mode s.world
    rcases h : raw.attempt mode true s.world with ⟨_ | _, w⟩
    · rw [h] at spent
      have fewer : raw.patience w < raw.patience s.world := spent rfl
      simp only [step, State.attempt, h, State.cost, cost]
      omega
    · simp only [step, State.attempt, h, State.cost, cost]
      omega
  | noting stage rest =>
    have next := cost_proceed_le s.lock.spinLimit (raw.patience s.world) rest
    by_cases waits : stage.waits = true
    · simp only [step, waits, ↓reduceIte, State.note, State.cost, cost_spinOn]
      simp only [cost]
      omega
    · simp only [step, waits, State.note, State.cost]
      exact Nat.lt_of_le_of_lt next (Nat.lt_succ_self _)
  | counting | spinning | tallying =>
    simp only [step, State.modify, countBusy, countSpin, State.cost, updateTally_spinLimit, cost]
    omega
  | waitingOn => exact Nat.lt_succ_self _
  | recording mode => cases mode <;> exact Nat.lt_succ_self _
  | releasing | checking =>
    simp only [step]
    split <;> simp [State.cost, cost]
  | leaving =>
    simp only [step]
    split <;> simp [State.cost, cost]
  | releasingExclusive | releasingShared => exact Nat.lt_succ_self _
  | joining | disowning | lowering | countingDowngrade | notingDowngrade => exact Nat.lt_succ_self _
  | finished r => cases unsettled

theorem drive_ends (yields : Yields raw) {n : Nat} {s : State σ} {a : Activity}
    (enough : s.cost raw a ≤ n) : ∃ r, (drive raw me n (s, a)).2 = .finished r := by
  induction n generalizing s a with
  | zero =>
    cases a with
    | finished r => exact ⟨r, rfl⟩
    | _ => simp [State.cost, cost] at enough
  | succ n ih =>
    by_cases unsettled : a.isSettled raw s.world = false
    · rw [drive_step n unsettled]
      exact ih (Nat.le_of_lt_succ (Nat.lt_of_lt_of_le (cost_step yields unsettled) enough))
    · cases a with
      | finished r => exact ⟨r, by rw [drive_finished]⟩
      | slicing mode => simp [Activity.isSettled, yields.unblocked] at unsettled
      | _ => exact absurd rfl unsettled

theorem cost_start_le (spins patience : Nat) (op : Operation) :
    cost spins patience op.start ≤ 4 * (spins + patience) + 32 := by
  cases op with
  | acquire strategy =>
    have stages : strategy.stages.2.length ≤ 1 := by cases strategy <;> simp [Strategy.stages]
    simp only [Operation.start, cost]
    omega
  | release | downgrade =>
    simp only [Operation.start, cost]
    omega

/-- Where the raw lock grants in the end, every operation ends. -/
theorem operate_ends (me : Nat) (yields : Yields raw) (op : Operation) (s : State σ) :
    ∃ r, (operate raw me op s).2 = .finished r :=
  drive_ends yields (cost_start_le s.lock.spinLimit (raw.patience s.world) op)

/-- Prepared answers are used up, and then every attempt succeeds. -/
theorem Script.yields : Yields Script.raw where
  unblocked _ _ := rfl
  kept mode s := by
    simp only [raw, next]
    split
    · exact Nat.le_refl _
    · cases mode <;> exact Nat.le_refl _
  spent mode s refused := by
    simp only [raw, next] at refused ⊢
    split at refused
    · cases refused
    · next granted rest taken =>
      have fewer : (s.get mode true).length = rest.length + 1 := by
        rw [← Answers.length_toList, Answers.toList_of_next? taken, List.length_cons,
          Answers.length_toList]
      cases mode with
      | read =>
        simp only [get] at fewer
        simp only [set]
        omega
      | write =>
        simp only [get] at fewer
        simp only [set]
        omega

/-! ## Threads of a system -/

namespace System

theorem isFree_iff {s : System σ} {thread : Nat} :
    s.isFree thread = true ↔ ∃ r, s.threads[thread]? = some (.finished r) := by
  unfold isFree
  split
  · next r h => exact ⟨fun _ => ⟨r, h⟩, fun _ => rfl⟩
  · next other =>
    refine ⟨(absurd · Bool.false_ne_true), ?_⟩
    rintro ⟨r, h⟩
    exact absurd h (other r)

theorem lt_of_isFree {s : System σ} {thread : Nat} (free : s.isFree thread = true) :
    thread < s.threads.length := by
  obtain ⟨r, h⟩ := isFree_iff.1 free
  exact (List.getElem?_eq_some_iff.1 h).1

/-- A free thread carries an operation out as it would alone. -/
theorem call_eq {s : System σ} {tokens : Tokens} {thread : Nat} (free : s.isFree thread = true)
    (op : Operation) :
    s.call raw tokens thread op =
      ((operate raw (tokens.of thread) op s.state).2.result?,
        ⟨(operate raw (tokens.of thread) op s.state).1,
          s.threads.set thread (operate raw (tokens.of thread) op s.state).2⟩) := by
  have inside := lt_of_isFree free
  have begun : (s.threads.set thread op.start)[thread]? = some op.start :=
    List.getElem?_set_self inside
  simp only [call, start, free, ↓reduceIte, advance, begun, List.set_set]
  rw [List.getElem?_set_self inside]
  rfl

end System

end Interlock.ReadWrite
