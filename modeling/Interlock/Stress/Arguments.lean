import Interlock.Environment
import Interlock.Log

/-!
# Arguments of a stress run

An option is `-` followed by nothing but `v`, and each `v` asks for more to be logged.  Any other
argument is the number of iterations if it reads as one; if not, it is ignored.
-/

namespace Interlock.Stress

/-- What the arguments of a run ask for. -/
structure Arguments where
  /-- How much is to be logged; 0 leaves that to the environment. -/
  verbosity : Nat := 0
  iterations : Nat := 10000
  deriving DecidableEq, Repr, Inhabited

namespace Arguments

/-- The `v`s of an option; none if the argument is no option. -/
def option? (arg : String) : Option Nat :=
  match arg.toList with
  | '-' :: rest => if rest.all (· == 'v') then some rest.length else none
  | _ => none

/-- The number of iterations that an argument gives, as it stands: no white space is trimmed. -/
def iterations? (arg : String) : Option Nat :=
  (Text.readInteger (.unsigned 64) arg.toList).map Int.toNat

/-- Adds the `v`s of one option to the verbosity: they are counted in a byte that wraps around,
and the sum stays at the largest byte. -/
def raise (verbosity vs : Nat) : Nat := min 255 (verbosity + vs % 256)

/-- Takes one more argument into account; a later number of iterations replaces an earlier one. -/
def add (a : Arguments) (arg : String) : Arguments :=
  match option? arg with
  | some vs => { a with verbosity := raise a.verbosity vs }
  | none =>
    match iterations? arg with
    | some n => { a with iterations := n }
    | none => a

/-- What a list of arguments asks for. -/
def ofList (args : List String) : Arguments := args.foldl add {}

/-- The lowest grade of lines that are shown, as a rank: that of the options, or else that of the
environment, or else warnings. -/
def threshold (env : Environment) (a : Arguments) : Nat :=
  if a.verbosity > 0 then a.verbosity
  else (env.integer (.unsigned 8) "RKS_LOG_LEVEL" Log.Level.warn.rank).toNat

end Arguments

end Interlock.Stress
