/-!
# Prepared answers

Answers that are given in order.  An answer that comes many times in a row is kept once, with the
number of times, so a long run takes no more room than a short one.  `toList` is what the runs
stand for: taking an answer takes it off the front of that list.
-/

namespace Interlock

/-- Answers that are still to be given: runs of equal ones, each with how often it comes. -/
structure Answers (α : Type) where
  runs : List (α × Nat) := []
  deriving DecidableEq, Repr, Inhabited

namespace Answers

variable {α : Type}

/-- The answers one by one. -/
def toList (a : Answers α) : List α := a.runs.flatMap fun r => List.replicate r.2 r.1

/-- How many answers there are. -/
def length (a : Answers α) : Nat := a.runs.foldr (fun r more => r.2 + more) 0

/-- Takes the first answer off some runs.  A run of no answers is passed over. -/
def takeFirst : List (α × Nat) → Option (α × List (α × Nat))
  | [] => none
  | (_, 0) :: rest => takeFirst rest
  | (answer, times + 1) :: rest => some (answer, (answer, times) :: rest)

/-- The next answer, and those after it. -/
def next? (a : Answers α) : Option (α × Answers α) :=
  (takeFirst a.runs).map fun (answer, runs) => (answer, ⟨runs⟩)

/-- More answers behind those that are there. -/
def append (a b : Answers α) : Answers α := ⟨a.runs ++ b.runs⟩

@[simp] theorem length_toList (a : Answers α) : a.toList.length = a.length := by
  obtain ⟨runs⟩ := a
  induction runs with
  | nil => rfl
  | cons run runs ih =>
    simp only [toList, length] at ih
    simp [toList, length, ih]

@[simp] theorem toList_append (a b : Answers α) : (a.append b).toList = a.toList ++ b.toList := by
  simp [toList, append]

/-- What comes first in runs is the head of the answers that they stand for. -/
theorem toList_of_takeFirst {runs rest : List (α × Nat)} {answer : α}
    (h : takeFirst runs = some (answer, rest)) :
    toList ⟨runs⟩ = answer :: toList ⟨rest⟩ := by
  induction runs with
  | nil => simp [takeFirst] at h
  | cons run runs ih =>
    obtain ⟨first, times⟩ := run
    cases times with
    | zero => simpa [toList] using ih h
    | succ times =>
      simp only [takeFirst, Option.some.injEq, Prod.mk.injEq] at h
      obtain ⟨rfl, rfl⟩ := h
      simp [toList, List.replicate_succ]

/-- Runs of which nothing can be taken stand for no answers. -/
theorem takeFirst_eq_none_iff {runs : List (α × Nat)} :
    takeFirst runs = none ↔ toList ⟨runs⟩ = [] := by
  induction runs with
  | nil => simp [takeFirst, toList]
  | cons run runs ih =>
    obtain ⟨first, times⟩ := run
    cases times with
    | zero => simpa [takeFirst, toList] using ih
    | succ times => simp [takeFirst, toList, List.replicate_succ]

/-- The next answer is the head of the list, and what is left is its tail. -/
theorem toList_of_next? {a b : Answers α} {answer : α} (h : a.next? = some (answer, b)) :
    a.toList = answer :: b.toList := by
  simp only [next?, Option.map_eq_some_iff, Prod.mk.injEq] at h
  obtain ⟨⟨_, runs⟩, hrun, rfl, rfl⟩ := h
  exact toList_of_takeFirst hrun

/-- There is no next answer exactly when the list is used up. -/
theorem next?_eq_none_iff {a : Answers α} : a.next? = none ↔ a.toList = [] := by
  simp only [next?, Option.map_eq_none_iff]
  exact takeFirst_eq_none_iff

end Answers

end Interlock
