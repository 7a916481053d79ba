import Interlock.Log
import Interlock.PrimitiveError

/-!
# Calls of the operating system's mutex

A lock reaches its mutex through eight calls, each of which answers with a code.  Who answers is
a `Backend` over a world of its own: prepared answers, or a mutex that threads really share.
A `Wire` is one end of such a connection, with the record of the calls made through it.
-/

namespace Interlock.Mutex

/-- The calls that a mutex understands. -/
inductive Op where
  | attrInit
  | attrSettype
  | attrDestroy
  | init
  | tryLock
  | lock
  | unlock
  | destroy
  deriving DecidableEq, Repr, Inhabited

/-- The call in a record. -/
def Op.name : Op → String
  | .attrInit => "attr_init"
  | .attrSettype => "attr_settype"
  | .attrDestroy => "attr_destroy"
  | .init => "init"
  | .tryLock => "trylock"
  | .lock => "lock"
  | .unlock => "unlock"
  | .destroy => "destroy"

/-- The name under which the operating system offers a call. -/
def Op.symbol : Op → String
  | .attrInit => "pthread_mutexattr_init"
  | .attrSettype => "pthread_mutexattr_settype"
  | .attrDestroy => "pthread_mutexattr_destroy"
  | .init => "pthread_mutex_init"
  | .tryLock => "pthread_mutex_trylock"
  | .lock => "pthread_mutex_lock"
  | .unlock => "pthread_mutex_unlock"
  | .destroy => "pthread_mutex_destroy"

/-- A call and the code that it answered. -/
structure Call where
  op : Op
  code : Int
  deriving DecidableEq, Repr, Inhabited

/-- Who answers the calls, in a world `σ`. -/
structure Backend (σ : Type) where
  /-- The answer of a call, and the world after it. -/
  answer : Op → σ → Int × σ
  /-- Whether a blocking `lock` made now does not return before another thread acts. -/
  blocks : σ → Bool

/-- What an answer means to a lock. -/
inductive Answer where
  /-- The call did what it was made for. -/
  | done
  /-- The mutex is in other hands. -/
  | held
  /-- The call failed. -/
  | failed (e : PrimitiveError)
  deriving DecidableEq, Repr, Inhabited

/-- Reads the code of a call.  Only a try reports a held mutex by a code of its own. -/
def Op.read (op : Op) (code : Int) : Answer :=
  if op = .tryLock ∧ code = Errno.ebusy then .held
  else
    match PrimitiveError.check op.symbol code with
    | .ok () => .done
    | .error e => .failed e

/-- A connection to a mutex: its world, and what went through the connection, latest first. -/
structure Wire (σ : Type) where
  world : σ
  calls : List Call := []
  log : List Log.Line := []
  deriving Repr, Inhabited

namespace Wire

variable {σ : Type}

/-- Makes a call and records it. -/
def call (b : Backend σ) (op : Op) (p : Wire σ) : Int × Wire σ :=
  let (code, world) := b.answer op p.world
  (code, { p with world, calls := ⟨op, code⟩ :: p.calls })

/-- Makes a call and reads its answer.  A blocking `lock` that does not return yet is no call: the
mutex is in other hands. -/
def ask (b : Backend σ) (op : Op) (p : Wire σ) : Answer × Wire σ :=
  if op = .lock ∧ b.blocks p.world then (.held, p)
  else
    let (code, p) := p.call b op
    (op.read code, p)

/-- Logs a line. -/
def report (line : Log.Line) (p : Wire σ) : Wire σ := { p with log := line :: p.log }

/-- Takes the mutex down, and warns if it refuses. -/
def destroy (b : Backend σ) (p : Wire σ) : Wire σ :=
  let (code, p) := p.call b .destroy
  if code = 0 then p
  else p.report (.warn (Op.destroy.symbol ++ " returned " ++ toString code))

end Wire

end Interlock.Mutex
