import Interlock.Duration
import Interlock.Text.Blank
import Interlock.Text.Integer

/-!
# Environment variables

Settings come from named variables.  A setting whose variable is unset, is not text, or does not
parse has its default, so a lookup never fails.
-/

namespace Interlock

/-- The variables that are set: a name and its text, or none if the value is not text. -/
structure Environment where
  vars : List (String × Option String) := []
  deriving Repr, Inhabited

namespace Environment

/-- The text of the variable with exactly this name. -/
def lookup (env : Environment) (name : String) : Option String :=
  (env.vars.find? (·.1 == name)).bind (·.2)

/-- The text that is stored under a name.  An empty name and a name with a NUL in it name nothing.
A variable is stored as its name, `=` and its text in one piece, so a name with `=` in it is the
name of a variable and the beginning of its text, and what it names comes after one more `=`. -/
def text? (env : Environment) (name : String) : Option String :=
  if name.isEmpty || name.toList.any (·.toNat == 0) then none
  else
    match name.toList.span (· != '=') with
    | (_, []) => env.lookup name
    | (owner, _ :: start) =>
      (env.lookup (String.ofList owner)).bind fun text =>
        ((start ++ ['=']).isPrefixOf? text.toList).map String.ofList

/-- The text of a variable without the white space around it. -/
def trimmed? (env : Environment) (name : String) : Option (List Char) :=
  (env.text? name).map fun text => Text.trim text.toList

/-- The integer of type `t` that a variable holds. -/
def integer (env : Environment) (t : Text.IntegerType) (name : String) (default : Int) : Int :=
  ((env.trimmed? name).bind (Text.readInteger t)).getD default

/-- The trimmed text that a variable holds. -/
def string (env : Environment) (name default : String) : String :=
  ((env.trimmed? name).map String.ofList).getD default

/-- The spellings of a truth value, in lower case. -/
def spellings : List (String × Bool) :=
  [("1", true), ("true", true), ("yes", true), ("on", true),
   ("0", false), ("false", false), ("no", false), ("off", false)]

/-- The truth value that a text spells, in any case of ASCII letters. -/
def readFlag (text : List Char) : Option Bool :=
  (spellings.find? (·.1.toList == text.map Char.toLower)).map (·.2)

/-- The truth value that a variable holds. -/
def flag (env : Environment) (name : String) (default : Bool) : Bool :=
  ((env.trimmed? name).bind readFlag).getD default

/-- The span of milliseconds that a variable holds. -/
def millis (env : Environment) (name : String) (default : Nat) : Duration :=
  .ofMillis (UInt64.ofNat (env.integer (.unsigned 64) name default).toNat)

end Environment

end Interlock
