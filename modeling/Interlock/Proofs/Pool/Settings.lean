import Interlock.Pool.Config
import Interlock.Proofs.Environment.Truth
import Mathlib.Data.List.Induction

/-!
# What a configuration is made of

Each field of a configuration has a variable of its own.  The field is what that variable gives, and
the default if it gives nothing (`get_of_given`, `get_of_not_given`), so it does not depend on the
other variables (`get_congr`); only for the workers, 0 is as good as nothing.  What a caller sets
comes after that, the last setting of a field first (`get_setAll_of_last`).  A configuration is
valid if it meets four conditions, and otherwise the error is that of the first of them that it does
not meet (`validate_eq`).
-/

namespace Interlock

namespace Duration

theorem toNanos_ofMillis (ms : UInt64) : (ofMillis ms).toNanos = ms.toNat * 1000000 := by
  have secs : (ms / 1000).toNat = ms.toNat / 1000 := UInt64.toNat_div ms 1000
  simp only [toNanos, ofMillis, secs]
  omega

/-- A duration is its nanoseconds. -/
theorem toNanos_inj {d d' : Duration} : d.toNanos = d'.toNanos ↔ d = d' := by
  refine ⟨fun same => ?_, congrArg _⟩
  obtain ⟨secs, nanos, low⟩ := d
  obtain ⟨secs', nanos', low'⟩ := d'
  dsimp only [toNanos] at same
  obtain rfl : nanos = nanos' := by omega
  obtain rfl : secs = secs' := UInt64.toNat_inj.1 (by omega)
  rfl

end Duration

namespace Pool

open Text (IntegerType)

/-- The fields of a configuration. -/
inductive Field where
  | workers
  | parkTimeout
  | stackSize
  | debugLogging
  deriving DecidableEq, Repr

namespace Field

/-- What a field holds. -/
def Value : Field → Type
  | .workers | .stackSize => Nat
  | .parkTimeout => Duration
  | .debugLogging => Bool

/-- What a configuration holds in a field. -/
def get (c : Config) : (f : Field) → f.Value
  | .workers => c.workers
  | .parkTimeout => c.parkTimeout
  | .stackSize => c.stackSize
  | .debugLogging => c.debugLogging

/-- The field as the complaints call it. -/
def title : Field → String
  | .workers => "num_workers"
  | .parkTimeout => "park_timeout"
  | .stackSize => "stack_size"
  | .debugLogging => "debug_logging"

/-- The variable that a field is read from. -/
def source : Field → String
  | .workers => "RKS_NUM_WORKERS"
  | .parkTimeout => "RKS_PARK_TIMEOUT_MS"
  | .stackSize => "RKS_STACK_SIZE"
  | .debugLogging => "RKS_DEBUG"

/-- What the environment gives for a field: a number of workers other than 0, a time limit in
milliseconds, a stack in bytes, or a truth value. -/
def Given (env : Environment) : (f : Field) → f.Value → Prop
  | .workers, (n : Nat) => n ≠ 0 ∧ env.Gives (.unsigned 64) (source .workers) n
  | .parkTimeout, (d : Duration) =>
    ∃ ms : Nat, env.Gives (.unsigned 64) (source .parkTimeout) ms ∧ d.toNanos = ms * 1000000
  | .stackSize, (bytes : Nat) => env.Gives (.unsigned 64) (source .stackSize) bytes
  | .debugLogging, (on : Bool) => env.Spells (source .debugLogging) on

end Field

/-- The field that a setting is for. -/
def Setting.field : Setting → Field
  | .workers _ => .workers
  | .parkTimeout _ => .parkTimeout
  | .stackSize _ => .stackSize
  | .debugLogging _ => .debugLogging

/-- What a setting puts there. -/
def Setting.value : (s : Setting) → s.field.Value
  | .workers n => n
  | .parkTimeout d => d
  | .stackSize bytes => bytes
  | .debugLogging on => on

namespace Config

variable {cores : Nat} {env env' : Environment} {c : Config} {f : Field}

/-! ## The environment -/

/-- A variable whose text is no natural number gives no integer without a sign. -/
theorem not_gives_of_forall_natCast {bits : Nat} {name : String}
    (silent : ∀ n : Nat, ¬ env.Gives (.unsigned bits) name n) (n : Int) :
    ¬ env.Gives (.unsigned bits) name n := by
  intro given
  have natural : 0 ≤ n := by
    obtain ⟨-, -, -, -, -, holds, -⟩ := given
    simpa [IntegerType.maxBelow, IntegerType.unsigned] using holds
  exact silent n.toNat (by rwa [Int.toNat_of_nonneg natural])

/-- A number of milliseconds that is given is taken, whatever the default. -/
theorem millis_of_gives {name : String} {ms default : Nat}
    (given : env.Gives (.unsigned 64) name ms) :
    (env.millis name default).toNanos = ms * 1000000 := by
  have small : ms < UInt64.size := by
    obtain ⟨-, -, -, -, -, -, high⟩ := given
    have bound : (ms : Int) ≤ (2 ^ 64 - 1 : Nat) := high
    have size : UInt64.size = 2 ^ 64 := rfl
    omega
  rw [Environment.millis, Environment.integer_of_gives given, Duration.toNanos_ofMillis,
    Int.toNat_natCast, UInt64.toNat_ofNat_of_lt' small]

theorem millis_of_not_gives {name : String} {default : Nat}
    (silent : ∀ ms : Nat, ¬ env.Gives (.unsigned 64) name ms) :
    env.millis name default = .ofMillis (UInt64.ofNat default) := by
  rw [Environment.millis, Environment.integer_of_not_gives (not_gives_of_forall_natCast silent),
    Int.toNat_natCast]

/-- A number of workers that is given is taken, unless it is 0. -/
theorem workers_of_gives {n : Nat} (some : n ≠ 0)
    (given : env.Gives (.unsigned 64) "RKS_NUM_WORKERS" n) :
    (ofEnvironment cores env).workers = n := by
  dsimp only [ofEnvironment]
  rw [Environment.integer_of_gives given, Int.toNat_natCast, resolveWorkers, if_neg some]

/-- Without a number of workers, or with 0, there is one worker per core, up to 64. -/
theorem workers_of_not_gives
    (silent : ∀ n : Nat, n ≠ 0 → ¬ env.Gives (.unsigned 64) "RKS_NUM_WORKERS" n) :
    (ofEnvironment cores env).workers = min cores 64 := by
  -- a variable that gives 0 asks for the default, which is 0 as well
  have none : env.integer (.unsigned 64) "RKS_NUM_WORKERS" defaultWorkers = 0 := by
    by_cases zero : env.Gives (.unsigned 64) "RKS_NUM_WORKERS" (0 : Nat)
    · exact Environment.integer_of_gives zero
    · refine Environment.integer_of_not_gives (not_gives_of_forall_natCast fun n given => ?_)
      by_cases h : n = 0
      · exact zero (h ▸ given)
      · exact silent n h given
  dsimp only [ofEnvironment]
  rw [none]
  rfl

/-- There is a worker at least, if a core was found. -/
theorem workers_ne_zero (found : 0 < cores) : (ofEnvironment cores env).workers ≠ 0 := by
  by_cases given : ∃ n : Nat, n ≠ 0 ∧ env.Gives (.unsigned 64) "RKS_NUM_WORKERS" n
  · obtain ⟨n, some, given⟩ := given
    rwa [workers_of_gives some given]
  · rw [workers_of_not_gives fun n some given' => given ⟨n, some, given'⟩]
    omega

/-- A field is what the environment gives for it. -/
theorem get_of_given {v : f.Value} (given : f.Given env v) :
    f.get (ofEnvironment cores env) = v := by
  cases f with
  | workers => exact workers_of_gives given.1 given.2
  | parkTimeout =>
    obtain ⟨ms, given, span⟩ := given
    exact Duration.toNanos_inj.1 ((millis_of_gives given).trans span.symm)
  | stackSize => exact congrArg Int.toNat (Environment.integer_of_gives given)
  | debugLogging => exact Environment.flag_of_spells given

/-- A field for which the environment gives nothing has its default. -/
theorem get_of_not_given (silent : ∀ v, ¬ f.Given env v) :
    f.get (ofEnvironment cores env) = f.get (defaults cores) := by
  cases f with
  | workers => exact workers_of_not_gives fun n some given => silent n ⟨some, given⟩
  | parkTimeout =>
    exact millis_of_not_gives fun ms given =>
      silent (env.millis _ 0) ⟨ms, given, millis_of_gives given⟩
  | stackSize =>
    exact congrArg Int.toNat
      (Environment.integer_of_not_gives (not_gives_of_forall_natCast silent))
  | debugLogging => exact Environment.flag_of_not_spells silent

/-- What is given for a field is told by its own variable. -/
theorem given_congr (same : env'.text? f.source = env.text? f.source) (v : f.Value) :
    f.Given env' v ↔ f.Given env v := by
  cases f with
  | workers => exact and_congr_right' (Environment.gives_congr same)
  | parkTimeout => exact exists_congr fun ms => and_congr_left' (Environment.gives_congr same)
  | stackSize => exact Environment.gives_congr same
  | debugLogging => exact Environment.spells_congr same

/-- A field depends on its own variable alone. -/
theorem get_congr (same : env'.text? f.source = env.text? f.source) :
    f.get (ofEnvironment cores env') = f.get (ofEnvironment cores env) := by
  by_cases given : ∃ v, f.Given env v
  · obtain ⟨v, given⟩ := given
    rw [get_of_given given, get_of_given ((given_congr same v).2 given)]
  · have silent : ∀ v, ¬ f.Given env v := not_exists.1 given
    rw [get_of_not_given silent, get_of_not_given fun v => mt (given_congr same v).1 (silent v)]

/-! ## The caller -/

theorem get_set (c : Config) (s : Setting) : s.field.get (c.set s) = s.value := by
  cases s <;> rfl

theorem get_set_of_ne {s : Setting} (other : s.field ≠ f) : f.get (c.set s) = f.get c := by
  cases s <;> cases f <;> first | rfl | exact absurd rfl other

theorem setAll_append (c : Config) (front back : List Setting) :
    c.setAll (front ++ back) = (c.setAll front).setAll back := List.foldl_append

/-- A field that the caller does not set stays as it was. -/
theorem get_setAll_of_forall_ne {settings : List Setting} (others : ∀ s ∈ settings, s.field ≠ f) :
    f.get (c.setAll settings) = f.get c := by
  induction settings generalizing c with
  | nil => rfl
  | cons s settings ih =>
    obtain ⟨first, rest⟩ := List.forall_mem_cons.1 others
    exact (ih rest).trans (get_set_of_ne first)

/-- A field that the caller sets is what it is last set to. -/
theorem get_setAll_of_last {front back : List Setting} {s : Setting}
    (last : ∀ s' ∈ back, s'.field ≠ s.field) :
    s.field.get (c.setAll (front ++ s :: back)) = s.value := by
  rw [setAll_append]
  exact (get_setAll_of_forall_ne last).trans (get_set _ s)

/-! ## The check -/

/-- What a configuration is checked for. -/
inductive Condition where
  | someWorkers
  | roomForWorkers
  | someParkTimeout
  | enoughStack
  deriving DecidableEq, Repr

namespace Condition

/-- The conditions in the order in which they are checked. -/
def all : List Condition := [someWorkers, roomForWorkers, someParkTimeout, enoughStack]

/-- Whether a configuration meets a condition. -/
def Met (c : Config) : Condition → Prop
  | someWorkers => 1 ≤ c.workers
  | roomForWorkers => c.workers ≤ 64
  | someParkTimeout => 0 < c.parkTimeout.toNanos
  | enoughStack => c.stackSize = 0 ∨ 16384 ≤ c.stackSize

instance : DecidablePred (Met c)
  | someWorkers => inferInstanceAs (Decidable (_ ≤ _))
  | roomForWorkers => inferInstanceAs (Decidable (_ ≤ _))
  | someParkTimeout => inferInstanceAs (Decidable (_ < _))
  | enoughStack => inferInstanceAs (Decidable (_ ∨ _))

/-- The field that a condition is about. -/
def field : Condition → Field
  | someWorkers | roomForWorkers => .workers
  | someParkTimeout => .parkTimeout
  | enoughStack => .stackSize

/-- What is wrong if a condition is not met. -/
def error : Condition → ConfigError
  | someWorkers => .noWorkers
  | roomForWorkers => .tooManyWorkers
  | someParkTimeout => .noParkTimeout
  | enoughStack => .smallStack

theorem mem_all (condition : Condition) : condition ∈ all := by cases condition <;> decide

/-- An error begins with the name of the field that it is about. -/
theorem title_isPrefix (condition : Condition) :
    condition.field.title.toList <+: condition.error.text.toList := by
  cases condition <;> decide

end Condition

open Interlock.Pool.Config.Condition (Met)

/-- A configuration is valid, or the error is that of the first condition that it does not meet. -/
theorem validate_eq (c : Config) :
    c.validate =
      match Condition.all.find? (¬ Met c ·) with
      | none => .ok ()
      | some condition => .error condition.error := by
  have idle : c.workers = 0 ↔ ¬ Met c .someWorkers := by
    dsimp only [Met]
    omega
  have crowded : c.workers > Limits.workers ↔ ¬ Met c .roomForWorkers := Nat.not_le.symm
  have atOnce : c.parkTimeout.isZero ↔ ¬ Met c .someParkTimeout := by
    rw [Duration.isZero_iff]
    dsimp only [Met]
    omega
  have small : c.stackSize ≠ 0 ∧ c.stackSize < Limits.stackBytes ↔ ¬ Met c .enoughStack := by
    dsimp only [Met, Limits.stackBytes]
    omega
  simp only [validate, idle, crowded, atOnce, small, Condition.all]
  by_cases first : Met c .someWorkers
  · by_cases second : Met c .roomForWorkers
    · by_cases third : Met c .someParkTimeout
      · by_cases fourth : Met c .enoughStack <;> simp [*, Condition.error]
      · simp [*, Condition.error]
    · simp [*, Condition.error]
  · simp [*, Condition.error]

/-- A configuration is valid if it meets every condition. -/
theorem validate_eq_ok_iff : c.validate = .ok () ↔ ∀ condition, Met c condition := by
  rw [validate_eq]
  split
  · next silent => simpa [Condition.mem_all] using silent
  · next condition found =>
    have broken := List.find?_some found
    simp only [reduceCtorEq, false_iff, not_forall]
    exact ⟨condition, by simpa using broken⟩

/-- The error is that of the first condition that is not met. -/
theorem validate_eq_error_iff {e : ConfigError} :
    c.validate = .error e ↔ ∃ front condition back, Condition.all = front ++ condition :: back ∧
      (∀ earlier ∈ front, Met c earlier) ∧ ¬ Met c condition ∧ condition.error = e := by
  rw [validate_eq]
  constructor
  · intro outcome
    split at outcome
    · cases outcome
    · next condition found =>
      obtain ⟨broken, front, back, order, met⟩ := List.find?_eq_some_iff_append.1 found
      exact ⟨front, condition, back, order, by simpa using met, by simpa using broken,
        Except.error.inj outcome⟩
  · rintro ⟨front, condition, back, order, met, broken, rfl⟩
    have found : Condition.all.find? (¬ Met c ·) = some condition :=
      List.find?_eq_some_iff_append.2
        ⟨by simpa using broken, front, back, order, by simpa using met⟩
    rw [found]

/-- The defaults are valid. -/
theorem validate_defaults (found : 0 < cores) : (defaults cores).validate = .ok () := by
  rw [validate_eq_ok_iff]
  intro condition
  cases condition with
  | someWorkers => exact Nat.le_min.2 ⟨found, by decide⟩
  | roomForWorkers => exact Nat.min_le_right ..
  | someParkTimeout => exact Nat.lt_of_lt_of_eq (by decide) (Duration.toNanos_ofMillis _).symm
  | enoughStack => exact .inl rfl

/-! ## All together -/

/-- What the environment makes of a configuration on a machine with `cores` cores. -/
structure FromEnvironment (cores : Nat) (env : Environment) : Prop where
  given (f : Field) (v : f.Value) : f.Given env v → f.get (ofEnvironment cores env) = v
  default (f : Field) : (∀ v, ¬ f.Given env v) →
    f.get (ofEnvironment cores env) = f.get (defaults cores)
  /-- A field has nothing to do with the other fields' variables. -/
  own (f : Field) (env' : Environment) : env'.text? f.source = env.text? f.source →
    f.get (ofEnvironment cores env') = f.get (ofEnvironment cores env)
  perCore : (∀ n : Nat, n ≠ 0 → ¬ env.Gives (.unsigned 64) "RKS_NUM_WORKERS" n) →
    (ofEnvironment cores env).workers = min cores 64
  workers_ne_zero : (ofEnvironment cores env).workers ≠ 0

/-- What settings make of a configuration. -/
structure Overridden (c : Config) (settings : List Setting) : Prop where
  last (front : List Setting) (s : Setting) (back : List Setting) : settings = front ++ s :: back →
    (∀ s' ∈ back, s'.field ≠ s.field) → s.field.get (c.setAll settings) = s.value
  kept (f : Field) : (∀ s ∈ settings, s.field ≠ f) → f.get (c.setAll settings) = f.get c

/-- What is said of a configuration. -/
structure Judged (c : Config) : Prop where
  valid : c.validate = .ok () ↔ 1 ≤ c.workers ∧ c.workers ≤ 64 ∧ 0 < c.parkTimeout.toNanos ∧
    (c.stackSize = 0 ∨ 16384 ≤ c.stackSize)
  /-- The first condition that is not met is named. -/
  first (e : ConfigError) : c.validate = .error e ↔
    ∃ front condition back, Condition.all = front ++ condition :: back ∧
      (∀ earlier ∈ front, Met c earlier) ∧ ¬ Met c condition ∧ condition.error = e

theorem fromEnvironment (found : 0 < cores) (env : Environment) : FromEnvironment cores env where
  given _ _ := get_of_given
  default _ := get_of_not_given
  own _ _ := get_congr
  perCore := workers_of_not_gives
  workers_ne_zero := workers_ne_zero found

theorem overridden (c : Config) (settings : List Setting) : Overridden c settings where
  last front s back order alone := by
    rw [order]
    exact get_setAll_of_last alone
  kept _ := get_setAll_of_forall_ne

theorem judged (c : Config) : Judged c where
  valid := by
    rw [validate_eq_ok_iff]
    refine ⟨fun all => ⟨all .someWorkers, all .roomForWorkers, all .someParkTimeout,
      all .enoughStack⟩, ?_⟩
    rintro ⟨some, room, pause, stack⟩ condition
    cases condition with
    | someWorkers => exact some
    | roomForWorkers => exact room
    | someParkTimeout => exact pause
    | enoughStack => exact stack
  first _ := validate_eq_error_iff

/-- **What a configuration is made of.**  Each field is what its own variable gives, and the default
if that variable is unset or gives nothing, whatever the other variables are; without a number of
workers other than 0 there is one worker per core, up to 64, so there is always one.  What a caller
sets after that replaces it, field by field.  The configuration that comes out is valid exactly if
it has 1 to 64 workers, some time limit, and no stack size or one of at least 16384 bytes; if not,
the error names the first of these that it lacks. -/
theorem configured {cores : Nat} (found : 0 < cores) (env : Environment)
    (settings : List Setting) :
    FromEnvironment cores env ∧ Overridden (ofEnvironment cores env) settings ∧
      Judged (ofEnvironment cores env) ∧ Judged ((ofEnvironment cores env).setAll settings) :=
  ⟨fromEnvironment found env, overridden _ settings, judged _, judged _⟩

/-- No number of workers, a signed time limit, a stack that is too small, and a truth value in mixed
letters. -/
def assorted : Environment where
  vars := [("RKS_NUM_WORKERS", some " 000 "), ("RKS_PARK_TIMEOUT_MS", some "+0025"),
    ("RKS_STACK_SIZE", some "16383\n"), ("RKS_DEBUG", some "\tYeS")]

/-- There is one worker per core.  The stack is too small, but too many workers come before that. -/
theorem configured_of_assorted :
    let c := ofEnvironment 8 assorted
    let c' := c.setAll [.workers 65, .debugLogging false, .workers 66]
    0 < 8 ∧ c.workers = 8 ∧ c.parkTimeout.toNanos = 25000000 ∧ c.stackSize = 16383 ∧
      c.debugLogging = true ∧ c.validate = .error .smallStack ∧
      c'.workers = 66 ∧ c'.stackSize = 16383 ∧ c'.debugLogging = false ∧
      c'.validate = .error .tooManyWorkers := by
  intro c c'
  have found : 0 < 8 := by decide
  obtain ⟨source, changed, judged, judged'⟩ :
      FromEnvironment 8 assorted ∧ Overridden c _ ∧ Judged c ∧ Judged c' :=
    configured found assorted [.workers 65, .debugLogging false, .workers 66]
  have zero : assorted.Gives (.unsigned 64) "RKS_NUM_WORKERS" 0 :=
    Environment.gives_iff.2 (by decide)
  have workers : c.workers = 8 := source.perCore fun n some given =>
    some (Int.ofNat.inj (given.unique zero))
  have pause : c.parkTimeout = .ofMillis 25 := source.given .parkTimeout (.ofMillis 25)
    ⟨25, Environment.gives_iff.2 (by decide), Duration.toNanos_ofMillis 25⟩
  have stack : c.stackSize = 16383 := source.given .stackSize (16383 : Nat)
    (Environment.gives_iff.2 (by decide))
  have talk : c.debugLogging = true := source.given .debugLogging true
    (Environment.spells_iff.2 (by decide))
  have workers' : c'.workers = 66 :=
    changed.last [.workers 65, .debugLogging false] (.workers 66) [] rfl (by decide)
  have stack' : c'.stackSize = c.stackSize := changed.kept .stackSize (by decide)
  have talk' : c'.debugLogging = false :=
    changed.last [.workers 65] (.debugLogging false) [.workers 66] rfl (by decide)
  refine ⟨found, workers, ?_, stack, talk, ?_, workers', stack'.trans stack, talk', ?_⟩
  · rw [pause, Duration.toNanos_ofMillis]
    rfl
  · refine (judged.first _).2 ⟨[.someWorkers, .roomForWorkers, .someParkTimeout], .enoughStack, [],
      rfl, ?_, ?_, rfl⟩
    · simp [Met, workers, pause, Duration.toNanos_ofMillis]
    · simp [Met, stack]
  · refine (judged'.first _).2 ⟨[.someWorkers], .roomForWorkers, [.someParkTimeout, .enoughStack],
      rfl, ?_, ?_, rfl⟩
    · simp [Met, workers']
    · simp [Met, workers']

end Config

end Pool

end Interlock
