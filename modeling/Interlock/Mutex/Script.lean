import Interlock.Answers
import Interlock.Mutex.Call

/-!
# A mutex with prepared answers

A mutex that answers each call as prepared; when the answers of a call are used up the call
succeeds.
-/

namespace Interlock.Mutex

/-- The answers that are still to be given, for each call. -/
structure Script where
  attrInit : Answers Int := {}
  attrSettype : Answers Int := {}
  attrDestroy : Answers Int := {}
  init : Answers Int := {}
  tryLock : Answers Int := {}
  lock : Answers Int := {}
  unlock : Answers Int := {}
  destroy : Answers Int := {}
  deriving DecidableEq, Repr, Inhabited

namespace Script

/-- The answers prepared for a call. -/
def get (s : Script) : Op → Answers Int
  | .attrInit => s.attrInit
  | .attrSettype => s.attrSettype
  | .attrDestroy => s.attrDestroy
  | .init => s.init
  | .tryLock => s.tryLock
  | .lock => s.lock
  | .unlock => s.unlock
  | .destroy => s.destroy

/-- Replaces the answers prepared for a call. -/
def set (s : Script) (answers : Answers Int) : Op → Script
  | .attrInit => { s with attrInit := answers }
  | .attrSettype => { s with attrSettype := answers }
  | .attrDestroy => { s with attrDestroy := answers }
  | .init => { s with init := answers }
  | .tryLock => { s with tryLock := answers }
  | .lock => { s with lock := answers }
  | .unlock => { s with unlock := answers }
  | .destroy => { s with destroy := answers }

@[simp] theorem get_set_self (s : Script) (answers : Answers Int) (op : Op) :
    (s.set answers op).get op = answers := by cases op <;> rfl

theorem get_set_of_ne (s : Script) (answers : Answers Int) {op other : Op} (h : other ≠ op) :
    (s.set answers op).get other = s.get other := by
  cases op <;> cases other <;> first | rfl | exact absurd rfl h

/-- The next answer of a call. -/
def next (op : Op) (s : Script) : Int × Script :=
  match (s.get op).next? with
  | none => (0, s)
  | some (code, rest) => (code, s.set rest op)

/-- Prepares more answers behind those that are there. -/
def append (s t : Script) : Script where
  attrInit := s.attrInit.append t.attrInit
  attrSettype := s.attrSettype.append t.attrSettype
  attrDestroy := s.attrDestroy.append t.attrDestroy
  init := s.init.append t.init
  tryLock := s.tryLock.append t.tryLock
  lock := s.lock.append t.lock
  unlock := s.unlock.append t.unlock
  destroy := s.destroy.append t.destroy

/-- The mutex that answers from a script; it never keeps a caller waiting. -/
def backend : Backend Script where
  answer := next
  blocks := fun _ => false

end Script

end Interlock.Mutex
