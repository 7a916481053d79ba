import Interlock.Proofs.ReadWrite.Steps

/-!
# The course of an operation

A thread that keeps to the discipline releases only when it holds the lock and lowers it only when
it writes.  `Backed` is what the discipline leaves a thread holding at each place of an operation,
and `Course` is what an operation has done to the thread's holdings by then.  A thread that stands
like that (`Stands`) goes on standing like that whatever step it takes (`Stride.stands`).
-/

namespace Interlock.ReadWrite

namespace Held

/-- What is left of a holding when it is released. -/
def released (h : Held) : Held := h.after (if h.writes then .unlockExclusive else .unlockShared)

end Held

/-- Whether a release is in progress. -/
def Activity.isReleasing : Activity → Bool
  | .releasing | .releasingExclusive | .leaving | .releasingShared => true
  | _ => false

/-- Whether a thread may begin an operation: it releases only what it holds, and lowers the lock
only as its writer. -/
def Operation.Fits (h : Held) : Operation → Prop
  | .acquire _ => True
  | .release => h.writes = true ∨ 0 < h.shares
  | .downgrade => h.writes = true

/-- What the discipline leaves a thread holding; it keeps operations from failing. -/
def Activity.Backed (h : Held) : Activity → Prop
  | .releasing => h.writes = true ∨ 0 < h.shares
  | .leaving => 0 < h.shares
  | .checking => h.writes = true
  | .countingDowngrade => 0 < h.shares
  | .notingDowngrade => 0 < h.shares
  | .finished .lowered => 0 < h.shares
  | .finished (.failed _) => False
  | _ => True

namespace Activity

variable {a : Activity}

theorem backed_of_isSeeking (ha : a.isSeeking = true) (h : Held) : a.Backed h := by
  cases a <;> trivial

theorem backed_iff_of_isLowered (ha : a.isLowered = true) (h : Held) :
    a.Backed h ↔ 0 < h.shares := by
  cases a with
  | finished r => cases r <;> trivial
  | _ => trivial

theorem not_isSeeking_of_isLowered (ha : a.isLowered = true) : ¬ a.isSeeking = true := by
  cases a <;> first | exact Bool.false_ne_true | cases ha

end Activity

/-- What an operation that began with `h₀` has done to the holdings, at a place in it. -/
def Operation.Course (op : Operation) (h₀ : Held) (a : Activity) (h : Held) : Prop :=
  match op with
  | .acquire _ =>
    ((a.isSeeking = true ∨ a = .finished (.acquired .unlocked)) ∧ h = h₀) ∨
      ∃ mode, (a = .recording mode ∨ a = .finished (.acquired mode.level)) ∧
        h = h₀.after (.attempt mode false true)
  | .release =>
    ((a = .releasing ∨ a = .releasingExclusive ∨ a = .leaving ∨ a = .releasingShared) ∧ h = h₀) ∨
      a = .finished .released ∧ h = h₀.released
  | .downgrade =>
    ((a = .checking ∨ a = .joining ∨ a = .disowning ∨ a = .lowering) ∧ h = h₀) ∨
      a.isLowered = true ∧ h = h₀.after .downgrade

/-- How an operation that began with `h₀` ends, and what is held then. -/
def Operation.Ends (op : Operation) (h₀ : Held) (r : Result) (h : Held) : Prop :=
  match op with
  | .acquire _ => (r = .acquired .unlocked ∧ h = h₀) ∨
      ∃ mode, r = .acquired mode.level ∧ h = h₀.after (.attempt mode false true)
  | .release => r = .released ∧ h = h₀.released
  | .downgrade => r = .lowered ∧ h = h₀.after .downgrade

theorem Operation.Course.ends {op : Operation} {h₀ h : Held} {r : Result}
    (course : op.Course h₀ (.finished r) h) : op.Ends h₀ r h := by
  cases op with
  | acquire strategy =>
    rcases course with ⟨seeks | ended, same⟩ | ⟨mode, records | ended, gained⟩
    · cases seeks
    · cases ended
      exact .inl ⟨rfl, same⟩
    · cases records
    · cases ended
      exact .inr ⟨mode, rfl, gained⟩
  | release =>
    rcases course with ⟨goesOn, -⟩ | ⟨ended, left⟩
    · simp at goesOn
    · cases ended
      exact ⟨rfl, left⟩
  | downgrade =>
    rcases course with ⟨goesOn, -⟩ | ⟨lowered, left⟩
    · simp at goesOn
    · cases r with
      | lowered => exact ⟨rfl, left⟩
      | _ => cases lowered

/-- How a thread stands that was last given an operation with these holdings. -/
structure Stands (given : Option (Operation × Held)) (mine : Prop) (a : Activity) (h : Held) :
    Prop where
  booked : a.Booked mine h
  backed : a.Backed h
  course : ∀ op h₀, given = some (op, h₀) → op.Course h₀ a h

theorem Operation.isExact_start (op : Operation) : op.start.isExact = true := by
  cases op <;> rfl

/-- A thread stands well when it begins an operation that it may begin. -/
theorem Operation.Fits.stands {op : Operation} {h : Held} (fits : op.Fits h) {mine : Prop}
    (booked : mine ↔ h.writes = true) : Stands (some (op, h)) mine op.start h where
  booked := (Activity.booked_iff_of_isExact op.isExact_start mine h).2 booked
  backed := by
    cases op with
    | acquire strategy => trivial
    | release => exact fits
    | downgrade => exact fits
  course := by
    rintro op h₀ ⟨⟩
    cases op with
    | acquire strategy => exact .inl ⟨.inl rfl, rfl⟩
    | release => exact .inl ⟨.inl rfl, rfl⟩
    | downgrade => exact .inl ⟨.inl rfl, rfl⟩

namespace Stride

variable {me o r o' r' : Nat} {a a' : Activity} {c : Option RawCall} {h h₀ : Held}

theorem backed (st : Stride me o r a c o' r' a') (booked : a.Booked (o = me) h)
    (backed : a.Backed h) (counted : a.reads h ≤ r) : a'.Backed (h.next c) := by
  cases st with
  | seek ha ha' refused =>
    rcases ha' with ha' | rfl
    · exact Activity.backed_of_isSeeking ha' _
    · trivial
  | pass other =>
    have unwritten : ¬ h.writes = true := fun writes => other (booked.2 writes)
    exact backed.resolve_left unwritten
  | unheld =>
    have shared : 0 < h.shares := backed
    exact absurd counted (Nat.not_le.2 shared)
  | unowned other => exact absurd (booked.2 backed) other
  | lower => exact Nat.succ_pos _
  | wind ha ha' =>
    rw [Activity.backed_iff_of_isLowered ha] at backed
    rwa [Activity.backed_iff_of_isLowered ha']
  | stay result => exact backed
  | _ => trivial

theorem course_acquire {strategy : Strategy} (st : Stride me o r a c o' r' a')
    (course : (Operation.acquire strategy).Course h₀ a h) :
    (Operation.acquire strategy).Course h₀ a' (h.next c) := by
  rcases course with ⟨seeks | rfl, rfl⟩ | ⟨mode, rfl | rfl, rfl⟩
  · cases st with
    | seek ha ha' refused => exact .inl ⟨ha', Held.next_refused refused⟩
    | grant mode timed ha =>
      refine .inr ⟨mode, .inl rfl, ?_⟩
      cases mode <;> rfl
    | wind ha ha' => exact absurd seeks (Activity.not_isSeeking_of_isLowered ha)
    | _ => cases seeks
  · cases st with
    | stay => exact .inl ⟨.inr rfl, rfl⟩
    | seek ha | grant _ _ ha | wind ha => cases ha
  · cases st with
    | recordRead => exact .inr ⟨.read, .inr rfl, rfl⟩
    | recordWrite => exact .inr ⟨.write, .inr rfl, rfl⟩
    | seek ha | grant _ _ ha | wind ha => cases ha
  · cases st with
    | stay => exact .inr ⟨mode, .inr rfl, rfl⟩
    | seek ha | grant _ _ ha | wind ha => cases ha

theorem course_release (st : Stride me o r a c o' r' a') (booked : a.Booked (o = me) h)
    (backed : a'.Backed (h.next c)) (course : Operation.release.Course h₀ a h) :
    Operation.release.Course h₀ a' (h.next c) := by
  rcases course with ⟨rfl | rfl | rfl | rfl, rfl⟩ | ⟨rfl, rfl⟩
  · cases st with
    | disown => exact .inl ⟨.inr (.inl rfl), rfl⟩
    | pass => exact .inl ⟨.inr (.inr (.inl rfl)), rfl⟩
    | seek ha | grant _ _ ha | wind ha => cases ha
  · cases st with
    | unlockExclusive =>
      refine .inr ⟨rfl, ?_⟩
      simp only [Held.released, booked.2, ↓reduceIte, Held.next]
    | seek ha | grant _ _ ha | wind ha => cases ha
  · cases st with
    | leave => exact .inl ⟨.inr (.inr (.inr rfl)), rfl⟩
    | unheld => exact absurd backed id
    | seek ha | grant _ _ ha | wind ha => cases ha
  · cases st with
    | unlockShared =>
      refine .inr ⟨rfl, ?_⟩
      simp only [Held.released, booked.2.1, Bool.false_eq_true, ↓reduceIte, Held.next]
    | seek ha | grant _ _ ha | wind ha => cases ha
  · cases st with
    | stay => exact .inr ⟨rfl, rfl⟩
    | seek ha | grant _ _ ha | wind ha => cases ha

theorem course_downgrade (st : Stride me o r a c o' r' a')
    (backed : a'.Backed (h.next c)) (course : Operation.downgrade.Course h₀ a h) :
    Operation.downgrade.Course h₀ a' (h.next c) := by
  rcases course with ⟨rfl | rfl | rfl | rfl, rfl⟩ | ⟨lowered, rfl⟩
  · cases st with
    | claim => exact .inl ⟨.inr (.inl rfl), rfl⟩
    | unowned => exact absurd backed id
    | seek ha | grant _ _ ha | wind ha => cases ha
  · cases st with
    | join => exact .inl ⟨.inr (.inr (.inl rfl)), rfl⟩
    | seek ha | grant _ _ ha | wind ha => cases ha
  · cases st with
    | vacate => exact .inl ⟨.inr (.inr (.inr rfl)), rfl⟩
    | seek ha | grant _ _ ha | wind ha => cases ha
  · cases st with
    | lower => exact .inr ⟨rfl, rfl⟩
    | seek ha | grant _ _ ha | wind ha => cases ha
  · cases st with
    | wind ha ha' => exact .inr ⟨ha', rfl⟩
    | stay => exact .inr ⟨lowered, rfl⟩
    | seek ha | grant _ _ ha => exact absurd ha (Activity.not_isSeeking_of_isLowered lowered)
    | _ => cases lowered

/-- Only a release takes shares away. -/
theorem keeps (st : Stride me o r a c o' r' a') (ha : a.isReleasing = false) :
    a'.isReleasing = false ∧ h.shares ≤ (h.next c).shares := by
  cases st with
  | seek seeks ha' refused =>
    rw [Held.next_refused refused]
    refine ⟨?_, Nat.le_refl _⟩
    rcases ha' with ha' | rfl
    · cases a' <;> trivial
    · rfl
  | grant mode timed seeks =>
    refine ⟨rfl, ?_⟩
    cases mode with
    | read => exact Nat.le_succ _
    | write => exact Nat.le_refl _
  | lower => exact ⟨rfl, Nat.le_succ _⟩
  | wind lowered ha' =>
    refine ⟨?_, Nat.le_refl _⟩
    cases a' <;> trivial
  | recordRead | recordWrite | claim | unowned | join | vacate | stay => exact ⟨rfl, Nat.le_refl _⟩
  | _ => cases ha

/-- A step leaves its thread standing well. -/
theorem stands (st : Stride me o r a c o' r' a') (hme : me ≠ 0)
    {given : Option (Operation × Held)} (s : Stands given (o = me) a h)
    (counted : a.reads h ≤ r) : Stands given (o' = me) a' (h.next c) where
  booked := by
    refine st.booked hme s.booked ?_
    rintro rfl -
    exact s.backed
  backed := st.backed s.booked s.backed counted
  course := by
    intro op h₀ asked
    have before := s.course op h₀ asked
    have backed := st.backed s.booked s.backed counted
    cases op with
    | acquire strategy => exact st.course_acquire before
    | release => exact st.course_release s.booked backed before
    | downgrade => exact st.course_downgrade backed before

end Stride

end Interlock.ReadWrite
