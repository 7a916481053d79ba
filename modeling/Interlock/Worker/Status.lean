/-!
# Status of a worker

The status of a worker moves along a fixed table.  A move that the table does not allow, or that
starts from another status than the one found, is refused.
-/

namespace Interlock.Worker

/-- Where a worker stands. -/
inductive Status where
  /-- No thread is attached: before it was started, or after it left. -/
  | notRunning
  /-- A thread was started and does not accept work yet. -/
  | starting
  /-- Idle, waiting for a job. -/
  | sleeping
  /-- A job was installed. -/
  | wakeRequested
  /-- The worker took the job. -/
  | awake
  /-- The job runs. -/
  | runningJob
  deriving DecidableEq, Repr, Inhabited

namespace Status

/-- Every status, in the order of their bytes. -/
def all : List Status := [.notRunning, .starting, .sleeping, .wakeRequested, .awake, .runningJob]

/-- The byte of a status. -/
def toByte : Status → UInt8
  | .notRunning => 0
  | .starting => 1
  | .sleeping => 2
  | .wakeRequested => 3
  | .awake => 4
  | .runningJob => 5

/-- The status of a byte; a byte that belongs to none means that no thread is attached. -/
def ofByte (byte : UInt8) : Status :=
  if byte = 1 then .starting
  else if byte = 2 then .sleeping
  else if byte = 3 then .wakeRequested
  else if byte = 4 then .awake
  else if byte = 5 then .runningJob
  else .notRunning

@[simp] theorem ofByte_toByte (s : Status) : ofByte s.toByte = s := by cases s <;> rfl

/-- The status in a log line. -/
def name : Status → String
  | .notRunning => "not-running"
  | .starting => "starting"
  | .sleeping => "sleeping"
  | .wakeRequested => "wake-requested"
  | .awake => "awake"
  | .runningJob => "running-job"

/-- The status as it is shown. -/
def render : Status → String
  | .notRunning => "NotRunning"
  | .starting => "Starting"
  | .sleeping => "Sleeping"
  | .wakeRequested => "WakeRequested"
  | .awake => "Awake"
  | .runningJob => "RunningJob"

/-- The status as a shared cell shows it: by its byte. -/
def renderShared (s : Status) : String := "AtomicWorkerStatus(" ++ toString s.toByte ++ ")"

/-- Whether the table allows a move. -/
def allows : Status → Status → Bool
  | .notRunning, .starting => true
  | .starting, .sleeping => true
  | .starting, .notRunning => true
  | .sleeping, .wakeRequested => true
  | .sleeping, .notRunning => true
  | .wakeRequested, .awake => true
  | .awake, .runningJob => true
  | .runningJob, .sleeping => true
  | _, _ => false

/-- A worker is idle only while it sleeps. -/
def isIdle (s : Status) : Bool := s == .sleeping

/-- Whether a thread is attached. -/
def isAttached (s : Status) : Bool := s != .notRunning

end Status

/-- A refused move: where it should have led, and the status that spoke against it. -/
structure IllegalMove where
  source : Status
  target : Status
  found : Status
  deriving DecidableEq, Repr, Inhabited

/-- The refusal in words. -/
def IllegalMove.message (m : IllegalMove) : String :=
  "illegal worker transition " ++ m.source.name ++ " -> " ++ m.target.name
    ++ " (was " ++ m.found.name ++ ")"

/-- Moves a worker found in `current` from `source` to `target`.  A move outside the table is
refused whatever was found, with its own source as the reason. -/
def Status.move (current source target : Status) : Except IllegalMove Status :=
  if !source.allows target then .error ⟨source, target, source⟩
  else if current = source then .ok target
  else .error ⟨source, target, current⟩

theorem Status.move_eq_ok_iff {current source target s : Status} :
    current.move source target = .ok s ↔
      s = target ∧ current = source ∧ source.allows target = true := by
  unfold Status.move
  cases h : source.allows target <;> by_cases hc : current = source <;> simp [hc, eq_comm]

end Interlock.Worker
