/-!
# Status of a job

A job is available, executing, finishing and completed, in this order and never back.
-/

namespace Interlock.Job

/-- How far a job has come. -/
inductive Status where
  /-- Installed, not yet picked up. -/
  | available
  /-- A worker runs it. -/
  | executing
  /-- The task is over, the books are not closed. -/
  | finishing
  /-- Done; whoever waits for it may go on. -/
  | completed
  deriving DecidableEq, Repr, Inhabited

namespace Status

/-- Every status, in the order of their bytes. -/
def all : List Status := [.available, .executing, .finishing, .completed]

/-- The byte of a status. -/
def toByte : Status → UInt8
  | .available => 1
  | .executing => 2
  | .finishing => 3
  | .completed => 4

/-- The status of a byte; a byte that belongs to none means available. -/
def ofByte (byte : UInt8) : Status :=
  if byte = 2 then .executing
  else if byte = 3 then .finishing
  else if byte = 4 then .completed
  else .available

@[simp] theorem ofByte_toByte (s : Status) : ofByte s.toByte = s := by cases s <;> rfl

/-- The status in a log line. -/
def name : Status → String
  | .available => "available"
  | .executing => "executing"
  | .finishing => "finishing"
  | .completed => "completed"

/-- The status as it is shown. -/
def render : Status → String
  | .available => "Available"
  | .executing => "Executing"
  | .finishing => "Finishing"
  | .completed => "Completed"

/-- Whether a job may move on from one status to another. -/
def allows : Status → Status → Bool
  | .available, .executing => true
  | .executing, .finishing => true
  | .finishing, .completed => true
  | _, _ => false

/-- Whether the job is done. -/
def isCompleted (s : Status) : Bool := s == .completed

end Status

/-- A refused move of a job. -/
structure IllegalMove where
  source : Status
  target : Status
  found : Status
  deriving DecidableEq, Repr, Inhabited

/-- The refusal in words. -/
def IllegalMove.message (m : IllegalMove) : String :=
  "illegal job transition " ++ m.source.name ++ " -> " ++ m.target.name
    ++ " (was " ++ m.found.name ++ ")"

/-- Moves a job found in `current` from `source` to `target`. -/
def Status.move (current source target : Status) : Except IllegalMove Status :=
  if current ≠ source || !source.allows target then .error ⟨source, target, current⟩
  else .ok target

theorem Status.move_eq_ok_iff {current source target s : Status} :
    current.move source target = .ok s ↔
      s = target ∧ current = source ∧ source.allows target = true := by
  unfold Status.move
  cases h : source.allows target <;> by_cases hc : current = source <;> simp [hc, eq_comm]

end Interlock.Job
