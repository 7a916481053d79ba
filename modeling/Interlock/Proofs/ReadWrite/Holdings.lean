import Interlock.Proofs.ReadWrite.Steps
import Mathlib.Algebra.BigOperators.Group.Finset.Basic
import Mathlib.Algebra.Order.BigOperators.Group.Finset

/-!
# The abstract reader/writer lock

All that matters of a lock to the threads that share it is what each of them holds.  The abstract
lock is just that, with the rule by which holdings may change (`Holdings.Allows`); the rule keeps a
writer alone (`Holdings.Exclusive.after`).  Who holds what follows from the calls of the raw lock
that have been made (`Holdings.replay`).

An ideal raw lock shows the holdings in sum: whether there is a writer, and how many shares there
are.  It grants only what the rule allows, so its calls are changes of the abstract lock
(`Ideal.Shows.after`).
-/

namespace Interlock.ReadWrite

/-- What each thread holds. -/
abbrev Holdings : Type := Nat → Held

namespace Holdings

/-- Whether a thread may make a call that ends as recorded.  A share is had while nobody writes, and
the exclusive hold while nobody holds anything. -/
def Allows (H : Holdings) (t : Nat) : RawCall → Prop
  | .attempt .read _ true => ∀ u, (H u).writes = false
  | .attempt .write _ true => ∀ u, H u = {}
  | c => (H t).Permits c

/-- The holdings after a call of a thread. -/
def after (H : Holdings) (t : Nat) (c : RawCall) : Holdings := Function.update H t ((H t).after c)

/-- The holdings after a step of a thread that makes one call or none. -/
def next (H : Holdings) (t : Nat) : Option RawCall → Holdings
  | none => H
  | some c => H.after t c

/-- What the threads hold after these calls, latest first, each with the thread that made it. -/
def replay : List (Nat × RawCall) → Holdings
  | [] => fun _ => {}
  | (t, call) :: earlier => (replay earlier).after t call

/-- A thread that writes holds no share, and no other thread holds anything. -/
def Exclusive (H : Holdings) : Prop :=
  ∀ t, (H t).writes = true → (H t).shares = 0 ∧ ∀ u, u ≠ t → H u = {}

variable {H : Holdings} {t u : Nat} {c : RawCall}

theorem next_self (call : Option RawCall) : H.next t call t = (H t).next call := by
  cases call with
  | none => rfl
  | some c => exact Function.update_self ..

theorem next_of_ne (h : u ≠ t) (call : Option RawCall) : H.next t call u = H u := by
  cases call with
  | none => rfl
  | some c => exact Function.update_of_ne h ..

theorem after_self : H.after t c t = (H t).after c := next_self (some c)

theorem after_of_ne (h : u ≠ t) : H.after t c u = H u := next_of_ne h (some c)

/-- A refusal changes nothing that anybody holds. -/
theorem after_refused (mode : Mode) (timed : Bool) :
    H.after t (.attempt mode timed false) = H := by
  funext u
  by_cases h : u = t
  · subst h
    rw [after_self]
    cases mode <;> rfl
  · exact after_of_ne h

/-- A thread that ends its writing leaves nobody who writes. -/
theorem unwritten_after (ends : ((H t).after c).writes = false)
    (others : ∀ u, u ≠ t → (H u).writes = false) (u : Nat) : (H.after t c u).writes = false := by
  by_cases same : u = t
  · rw [same, after_self, ends]
  · rw [after_of_ne same, others u same]

namespace Exclusive

/-- Nobody reads while somebody writes. -/
theorem shares_eq_zero (h : H.Exclusive) (writes : (H t).writes = true) (u : Nat) :
    (H u).shares = 0 := by
  by_cases same : u = t
  · rw [same]
    exact (h t writes).1
  · rw [(h t writes).2 u same]

/-- At most one thread writes. -/
theorem eq_of_writes (h : H.Exclusive) (writes : (H t).writes = true)
    (writes' : (H u).writes = true) : u = t := by
  by_contra other
  rw [(h t writes).2 u other] at writes'
  cases writes'

/-- Nobody writes while a share is held. -/
theorem writes_eq_false (h : H.Exclusive) (shared : 0 < (H t).shares) (u : Nat) :
    (H u).writes = false := by
  refine Bool.eq_false_iff.2 fun writes => ?_
  rw [h.shares_eq_zero writes t] at shared
  exact absurd shared (Nat.lt_irrefl 0)

theorem others_unwritten (h : H.Exclusive) (writes : (H t).writes = true) :
    ∀ u, u ≠ t → (H u).writes = false := by
  intro u other
  rw [(h t writes).2 u other]

theorem of_unwritten (h : ∀ u, (H u).writes = false) : H.Exclusive := by
  intro u writes
  rw [h u] at writes
  cases writes

/-- The rule of the abstract lock keeps a writer alone. -/
theorem after (h : H.Exclusive) (allowed : H.Allows t c) : (H.after t c).Exclusive := by
  rcases c with ⟨_ | _, timed, _ | _⟩ | _ | _ | _
  case attempt.read.false | attempt.write.false =>
    rw [after_refused]
    exact h
  case attempt.read.true =>
    exact of_unwritten (unwritten_after (allowed t) fun u _ => allowed u)
  case attempt.write.true =>
    intro u writes
    have mine : u = t := by
      by_contra other
      rw [after_of_ne other, allowed u] at writes
      cases writes
    rw [mine, after_self, allowed t]
    refine ⟨rfl, fun v other => ?_⟩
    rw [after_of_ne other, allowed v]
  case unlockShared =>
    have unwritten := h.writes_eq_false allowed
    exact of_unwritten (unwritten_after (unwritten t) fun u _ => unwritten u)
  case unlockExclusive => exact of_unwritten (unwritten_after rfl (h.others_unwritten allowed))
  case downgrade => exact of_unwritten (unwritten_after rfl (h.others_unwritten allowed))

end Exclusive

end Holdings

/-! ## Ideal raw locks -/

/-- A sum in which one term changes. -/
theorem sum_range_of_eq_off {n t : Nat} {f g : Nat → Nat} (ht : t < n)
    (off : ∀ u, u ≠ t → g u = f u) :
    (∑ u ∈ Finset.range n, g u) + f t = (∑ u ∈ Finset.range n, f u) + g t := by
  have inside : t ∈ Finset.range n := Finset.mem_range.2 ht
  have rest : ∑ u ∈ (Finset.range n).erase t, g u = ∑ u ∈ (Finset.range n).erase t, f u :=
    Finset.sum_congr rfl fun u hu => off u (Finset.ne_of_mem_erase hu)
  rw [← Finset.add_sum_erase _ g inside, ← Finset.add_sum_erase _ f inside, rest]
  omega

namespace Ideal

/-- A raw lock that is ideal: it grants only what can be granted, a refusal changes nothing, and
what is given back or lowered is so at once.  When it refuses is up to it. -/
structure Governs (raw : Raw Ideal) : Prop where
  granted : ∀ mode timed l, (raw.attempt mode timed l).1 = true →
    l.grants mode = true ∧ (raw.attempt mode timed l).2 = l.take mode
  refused : ∀ mode timed l, (raw.attempt mode timed l).1 = false →
    (raw.attempt mode timed l).2 = l
  unlockShared : ∀ l, raw.unlockShared l = { l with shares := l.shares - 1 }
  unlockExclusive : ∀ l, raw.unlockExclusive l = { l with writer := false }
  downgrade : ∀ l, raw.downgrade l = { l with writer := false, shares := l.shares + 1 }

/-- The ideal lock that refuses only what it must. -/
theorem governs_raw : Governs raw where
  granted mode timed l h := by
    by_cases grants : l.grants mode = true
    · simp [raw, attempt, grants]
    · simp [raw, attempt, grants] at h
  refused mode timed l h := by
    by_cases grants : l.grants mode = true
    · simp [raw, attempt, grants] at h
    · simp [raw, attempt, grants]
  unlockShared _ := rfl
  unlockExclusive _ := rfl
  downgrade _ := rfl

/-- A raw lock shows what `count` threads hold together. -/
structure Shows (l : Ideal) (count : Nat) (H : Holdings) : Prop where
  writer : l.writer = true ↔ ∃ t, (H t).writes = true
  shares : l.shares = ∑ t ∈ Finset.range count, (H t).shares
  outside : ∀ t, count ≤ t → H t = {}

namespace Shows

variable {l : Ideal} {count t : Nat} {H : Holdings}

theorem writer_iff {writer : Bool} (free : writer = false) (unwritten : ∀ u, (H u).writes = false) :
    writer = true ↔ ∃ u, (H u).writes = true := by
  simp [free, unwritten]

/-- A free raw lock shows that nobody writes. -/
theorem unwritten (h : l.Shows count H) (free : l.writer = false) (u : Nat) :
    (H u).writes = false := by
  refine Bool.eq_false_iff.2 fun writes => ?_
  rw [h.writer.2 ⟨u, writes⟩] at free
  cases free

/-- No thread holds more shares than there are. -/
theorem shares_le (h : l.Shows count H) {u : Nat} (inside : u < count) :
    (H u).shares ≤ l.shares := by
  rw [h.shares]
  exact Finset.single_le_sum (f := fun t => (H t).shares) (fun _ _ => Nat.zero_le _)
    (Finset.mem_range.2 inside)

/-- A mode is granted only where the rule of the abstract lock allows it. -/
theorem allows (h : l.Shows count H) {mode : Mode} (timed : Bool) (grants : l.grants mode = true) :
    H.Allows t (.attempt mode timed true) := by
  cases mode with
  | read => exact h.unwritten (by simpa [Ideal.grants] using grants)
  | write =>
    obtain ⟨free, none⟩ : l.writer = false ∧ l.shares = 0 := by simpa [Ideal.grants] using grants
    intro u
    have shares : (H u).shares = 0 := by
      by_cases inside : u < count
      · have bound := h.shares_le inside
        rw [none] at bound
        exact Nat.le_zero.1 bound
      · rw [h.outside u (Nat.le_of_not_lt inside)]
    have writes := h.unwritten free u
    rcases hu : H u with ⟨w, n⟩
    simp only [hu] at shares writes
    rw [shares, writes]

/-- All shares together change by those of the thread that calls. -/
theorem shares_after (h : l.Shows count H) (inside : t < count) (c : RawCall) :
    (∑ u ∈ Finset.range count, (H.after t c u).shares) + (H t).shares =
      l.shares + ((H t).after c).shares := by
  have sum := sum_range_of_eq_off (f := fun u => (H u).shares)
    (g := fun u => (H.after t c u).shares) inside fun u other => by rw [Holdings.after_of_ne other]
  rw [h.shares, sum, Holdings.after_self]

theorem outside_after (h : l.Shows count H) (inside : t < count) (c : RawCall) :
    ∀ u, count ≤ u → H.after t c u = {} := by
  intro u beyond
  rw [Holdings.after_of_ne (by omega)]
  exact h.outside u beyond

/-- An ideal raw lock goes on showing what the threads hold, and its calls follow the rule of the
abstract lock. -/
theorem after {raw : Raw Ideal} (governs : Governs raw) (h : l.Shows count H)
    (exclusive : H.Exclusive) (inside : t < count) {c : RawCall}
    (answered : ∀ mode timed granted, c = .attempt mode timed granted →
      (raw.attempt mode timed l).1 = granted)
    (permitted : (H t).Permits c) :
    H.Allows t c ∧ (raw.after l (some c)).Shows count (H.after t c) := by
  have sum := h.shares_after inside c
  have outside := h.outside_after inside c
  have mine : (H t).shares ≤ l.shares := h.shares_le inside
  rcases c with ⟨mode, timed, _ | _⟩ | _ | _ | _
  case attempt.false =>
    refine ⟨by cases mode <;> trivial, ?_⟩
    rw [Holdings.after_refused]
    simp only [Raw.after]
    rw [governs.refused mode timed l (answered mode timed false rfl)]
    exact h
  case attempt.true =>
    obtain ⟨grants, taken⟩ := governs.granted mode timed l (answered mode timed true rfl)
    have allowed := h.allows (t := t) timed grants
    refine ⟨allowed, ?_⟩
    simp only [Raw.after]
    rw [taken]
    cases mode with
    | read =>
      have free : l.writer = false := by simpa [Ideal.grants] using grants
      refine ⟨?_, ?_, outside⟩
      · exact writer_iff free (Holdings.unwritten_after (allowed t) fun u _ => allowed u)
      · simp only [Held.after] at sum
        simp only [take]
        omega
    | write =>
      refine ⟨?_, ?_, outside⟩
      · refine ⟨fun _ => ⟨t, ?_⟩, fun _ => rfl⟩
        rw [Holdings.after_self]
        rfl
      · simp only [Held.after] at sum
        simp only [take]
        omega
  case unlockShared =>
    have shared : 0 < (H t).shares := permitted
    have unwritten := exclusive.writes_eq_false shared
    have free : l.writer = false := by
      refine Bool.eq_false_iff.2 fun writer => ?_
      obtain ⟨u, writes⟩ := h.writer.1 writer
      rw [unwritten u] at writes
      cases writes
    refine ⟨permitted, ?_⟩
    simp only [Raw.after]
    rw [governs.unlockShared]
    refine ⟨?_, ?_, outside⟩
    · exact writer_iff free (Holdings.unwritten_after (unwritten t) fun u _ => unwritten u)
    · simp only [Held.after] at sum ⊢
      omega
  case unlockExclusive =>
    refine ⟨permitted, ?_⟩
    simp only [Raw.after]
    rw [governs.unlockExclusive]
    refine ⟨?_, ?_, outside⟩
    · exact writer_iff rfl (Holdings.unwritten_after rfl (exclusive.others_unwritten permitted))
    · simp only [Held.after] at sum ⊢
      omega
  case downgrade =>
    refine ⟨permitted, ?_⟩
    simp only [Raw.after]
    rw [governs.downgrade]
    refine ⟨?_, ?_, outside⟩
    · exact writer_iff rfl (Holdings.unwritten_after rfl (exclusive.others_unwritten permitted))
    · simp only [Held.after] at sum ⊢
      omega

end Shows

end Ideal

end Interlock.ReadWrite
