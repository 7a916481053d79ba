import Interlock.ReadWrite.Basic

/-!
# Threads sharing one reader/writer lock

A system is a lock and one activity per thread.  Its steps are the steps of its threads in any
order; a thread begins an operation only when its last one has ended.
-/

namespace Interlock.ReadWrite

/-- The tokens by which threads are told apart; none is 0, which stands for nobody. -/
structure Tokens where
  of : Nat → Nat
  ne_zero : ∀ thread, of thread ≠ 0
  inj : ∀ {a b}, of a = of b → a = b

/-- Threads numbered from 1. -/
def Tokens.numbered : Tokens where
  of := Nat.succ
  ne_zero := Nat.succ_ne_zero
  inj := Nat.succ.inj

/-- A lock and where each thread stands; a thread that has ended an operation keeps its result. -/
structure System (σ : Type) where
  state : State σ
  threads : List Activity
  deriving Repr, Inhabited

namespace System

variable {σ : Type}

/-- A lock that nobody has touched yet, with `count` threads. -/
def fresh (count spinLimit : Nat) (world : σ) : System σ where
  state := { lock := { spinLimit }, world }
  threads := List.replicate count (.finished .released)

/-- Whether a thread has ended its last operation. -/
def isFree (s : System σ) (thread : Nat) : Bool :=
  match s.threads[thread]? with
  | some (.finished _) => true
  | _ => false

/-- Lets a free thread begin an operation. -/
def start (thread : Nat) (op : Operation) (s : System σ) : System σ :=
  if s.isFree thread then { s with threads := s.threads.set thread op.start } else s

/-- Takes one thread one step on. -/
def step (raw : Raw σ) (tokens : Tokens) (thread : Nat) (s : System σ) : System σ :=
  match s.threads[thread]? with
  | none => s
  | some activity =>
    let (state, activity) := ReadWrite.step raw (tokens.of thread) s.state activity
    ⟨state, s.threads.set thread activity⟩

/-- What a system may do next. -/
inductive Move where
  | start (thread : Nat) (op : Operation)
  | step (thread : Nat)
  deriving DecidableEq, Repr, Inhabited

/-- Makes a move. -/
def move (raw : Raw σ) (tokens : Tokens) (s : System σ) : Move → System σ
  | .start thread op => s.start thread op
  | .step thread => s.step raw tokens thread

/-- Takes one thread on as far as it gets on its own. -/
def advance (raw : Raw σ) (tokens : Tokens) (thread : Nat) (s : System σ) : System σ :=
  match s.threads[thread]? with
  | none => s
  | some activity =>
    let (state, activity) := drive raw (tokens.of thread) (fuel raw s.state) (s.state, activity)
    ⟨state, s.threads.set thread activity⟩

/-- Lets a thread carry out an operation; none when the thread is left waiting. -/
def call (raw : Raw σ) (tokens : Tokens) (thread : Nat) (op : Operation) (s : System σ) :
    Option Result × System σ :=
  let s := (s.start thread op).advance raw tokens thread
  ((s.threads[thread]?).bind Activity.result?, s)

/-- Whether a thread waits to write. -/
def writerWaits (s : System σ) : Bool := s.threads.contains (.slicing .write)

/-- The threads that are in the middle of an operation. -/
def busy (s : System σ) : List Nat :=
  (List.range s.threads.length).filter fun thread => !s.isFree thread

end System

end Interlock.ReadWrite
