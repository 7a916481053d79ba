import Interlock.Answers
import Interlock.Condition.Crowd
import Interlock.Condition.Lock
import Interlock.Condition.Waiting
import Interlock.Counter
import Interlock.Duration
import Interlock.Environment
import Interlock.Errno
import Interlock.Errno.Message
import Interlock.Exclusive.Basic
import Interlock.Exclusive.Session
import Interlock.FlagByte
import Interlock.Job.Basic
import Interlock.Job.Session
import Interlock.Job.Status
import Interlock.Limits
import Interlock.Log
import Interlock.Machine
import Interlock.Main
import Interlock.Mutex.Call
import Interlock.Mutex.ErrorChecking
import Interlock.Mutex.OwnerTracked
import Interlock.Mutex.Script
import Interlock.Mutex.Sharing
import Interlock.Parking.Condvar
import Interlock.Parking.Futex
import Interlock.Parking.Signal
import Interlock.Payload
import Interlock.Pool.Basic
import Interlock.Pool.Call
import Interlock.Pool.Config
import Interlock.Pool.Control
import Interlock.Pool.Error
import Interlock.Pool.Session
import Interlock.Pool.Step
import Interlock.PrimitiveError
import Interlock.ReadWrite.Basic
import Interlock.ReadWrite.Raw
import Interlock.ReadWrite.Session
import Interlock.ReadWrite.Strategy
import Interlock.ReadWrite.System
import Interlock.Stress.Arguments
import Interlock.Stress.Jobs
import Interlock.Stress.Locks
import Interlock.Stress.Report
import Interlock.Text.Blank
import Interlock.Text.Integer
import Interlock.Worker.Basic
import Interlock.Worker.Slot
import Interlock.Worker.Status
import Interlock.Proofs.Job.Course
import Interlock.Proofs.Job.Publication
import Interlock.Proofs.Pool.Sound
import Interlock.Proofs.Pool.Move
import Interlock.Proofs.Pool.Steps
import Interlock.Proofs.Pool.Idle
import Interlock.Proofs.Pool.Ledger
import Interlock.Proofs.Pool.Roles
import Interlock.Proofs.Pool.Run
import Interlock.Proofs.Pool.Agreement
import Interlock.Proofs.Pool.Execution
import Interlock.Proofs.Pool.Parties
import Interlock.Proofs.Pool.Custody
import Interlock.Proofs.Pool.Teardown
import Interlock.Proofs.Pool.Wakeup
import Interlock.Proofs.Pool.Rest
import Interlock.Proofs.Pool.Leftover
import Interlock.Proofs.Pool.Early
import Interlock.Proofs.Pool.Spawning
import Interlock.Proofs.Pool.Remaining
import Interlock.Proofs.Pool.Progress
import Interlock.Proofs.Pool.Creation
import Interlock.Proofs.Pool.Settling
import Interlock.Proofs.Pool.Waking
import Interlock.Proofs.Pool.Alike
import Interlock.Proofs.Pool.Disturbance
import Interlock.Proofs.Condition.Updates
import Interlock.Proofs.Exclusive.Balance
import Interlock.Proofs.Exclusive.Budget
import Interlock.Proofs.Exclusive.Operations
import Interlock.Proofs.Exclusive.Charges
import Interlock.Proofs.Exclusive.Lifetime
import Interlock.Proofs.Mutex.Agreement
import Interlock.Proofs.ReadWrite.Steps
import Interlock.Proofs.ReadWrite.Alone
import Interlock.Proofs.ReadWrite.Lawful
import Interlock.Proofs.ReadWrite.Course
import Interlock.Proofs.ReadWrite.Holdings
import Interlock.Proofs.ReadWrite.Refinement
import Interlock.Proofs.ReadWrite.Attempts
import Interlock.Proofs.ReadWrite.Stages
import Interlock.Proofs.ReadWrite.Strategies
import Interlock.Proofs.ReadWrite.Records
import Interlock.Proofs.ReadWrite.Charges
import Interlock.Proofs.Parking.Alone
import Interlock.Proofs.Parking.Queue
import Interlock.Proofs.Parking.Broadcast
import Interlock.Proofs.Parking.Flag
import Interlock.Proofs.Parking.Single
import Interlock.Proofs.Pool.Patience
import Interlock.Proofs.Debugging.Course
import Interlock.Proofs.Debugging.Exclusive
import Interlock.Proofs.Debugging.ReadWrite
import Interlock.Proofs.Debugging.Unseen
import Interlock.Proofs.Bracket.Exclusive
import Interlock.Proofs.Bracket.ReadWrite
import Interlock.Proofs.Text.Blank
import Interlock.Proofs.Text.Numeral
import Interlock.Proofs.Text.Word
import Interlock.Proofs.Environment.Lookup
import Interlock.Proofs.Environment.Truth
import Interlock.Proofs.Stress.Arguments
import Interlock.Proofs.Pool.Settings
import Interlock.Proofs.Pool.Backpressure
