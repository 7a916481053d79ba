import Interlock.Environment
import Interlock.Limits
import Interlock.Log

/-!
# Configuration of a pool

Defaults, overridden by the environment, overridden by the caller.  `Config.validate` names the
first condition that a configuration breaks.
-/

namespace Interlock.Pool

/-- How a pool is set up. -/
structure Config where
  /-- Worker threads, one slot each. -/
  workers : Nat
  /-- How long a submitter sleeps between two looks at the idle queue. -/
  parkTimeout : Duration
  /-- Stack of a worker in bytes; 0 leaves it to the platform. -/
  stackSize : Nat
  /-- Whether the workers' lifecycle is logged. -/
  debugLogging : Bool
  deriving DecidableEq, Repr, Inhabited

/-- A setting that a caller gives. -/
inductive Setting where
  | workers (n : Nat)
  | parkTimeout (d : Duration)
  | stackSize (bytes : Nat)
  | debugLogging (on : Bool)
  deriving DecidableEq, Repr, Inhabited

/-- What is wrong with a configuration. -/
inductive ConfigError where
  | noWorkers
  | tooManyWorkers
  | noParkTimeout
  | smallStack
  /-- Any other complaint, in the words of who makes it. -/
  | custom (text : String)
  deriving DecidableEq, Repr, Inhabited

/-- The complaint in words. -/
def ConfigError.text : ConfigError → String
  | .noWorkers => "num_workers must be > 0"
  | .tooManyWorkers => "num_workers must be <= 64"
  | .noParkTimeout => "park_timeout must be > 0"
  | .smallStack => "stack_size must be 0 or >= 16KB"
  | .custom text => text

/-- The error in words. -/
def ConfigError.message (e : ConfigError) : String := "invalid config: " ++ e.text

namespace Config

/-- Default worker count; 0 asks for one worker per core. -/
def defaultWorkers : Nat := 0

/-- Default stack; 0 leaves it to the platform. -/
def defaultStackSize : Nat := 0

/-- Default of the lifecycle log. -/
def defaultDebugLogging : Bool := false

/-- One worker per core for a request of 0, though never more than a pool may have. -/
def resolveWorkers (cores requested : Nat) : Nat :=
  if requested = 0 then min cores Limits.workers else requested

/-- The defaults alone, on a machine with `cores` cores. -/
def defaults (cores : Nat) : Config where
  workers := resolveWorkers cores defaultWorkers
  parkTimeout := .ofMillis (UInt64.ofNat Limits.parkMillis)
  stackSize := defaultStackSize
  debugLogging := defaultDebugLogging

/-- The defaults, each overridden by its own variable. -/
def ofEnvironment (cores : Nat) (env : Environment) : Config where
  workers :=
    resolveWorkers cores (env.integer (.unsigned 64) "RKS_NUM_WORKERS" defaultWorkers).toNat
  parkTimeout := env.millis "RKS_PARK_TIMEOUT_MS" Limits.parkMillis
  stackSize := (env.integer (.unsigned 64) "RKS_STACK_SIZE" defaultStackSize).toNat
  debugLogging := env.flag "RKS_DEBUG" defaultDebugLogging

/-- A configuration in which a caller has changed one setting. -/
def set (c : Config) : Setting → Config
  | .workers n => { c with workers := n }
  | .parkTimeout d => { c with parkTimeout := d }
  | .stackSize bytes => { c with stackSize := bytes }
  | .debugLogging on => { c with debugLogging := on }

/-- A configuration in which a caller has changed some settings, first to last. -/
def setAll (c : Config) (settings : List Setting) : Config := settings.foldl set c

/-- Checks a configuration and names the first condition that it breaks. -/
def validate (c : Config) : Except ConfigError Unit :=
  if c.workers = 0 then .error .noWorkers
  else if c.workers > Limits.workers then .error .tooManyWorkers
  else if c.parkTimeout.isZero then .error .noParkTimeout
  else if c.stackSize ≠ 0 ∧ c.stackSize < Limits.stackBytes then .error .smallStack
  else .ok ()

/-- The line that tells how a pool is set up. -/
def summary (c : Config) : Log.Line :=
  .info ("pool config: workers=" ++ toString c.workers ++ " park_timeout=" ++ c.parkTimeout.render
    ++ " stack_size=" ++ toString c.stackSize ++ " debug=" ++ toString c.debugLogging)

/-- The configuration as it is shown. -/
def render (c : Config) : String :=
  "PoolConfig \x7b num_workers: " ++ toString c.workers ++ ", park_timeout: "
    ++ c.parkTimeout.render ++ ", stack_size: " ++ toString c.stackSize
    ++ ", debug_logging: " ++ toString c.debugLogging ++ " \x7d"

end Config

end Interlock.Pool
