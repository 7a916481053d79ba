import Interlock.Environment
import Interlock.Proofs.Text.Word

/-!
# Numbers from the environment

A variable gives a number of a type if its text, trimmed, is a numeral of that number and the number
is in the range of the type (`Gives`).  A lookup yields that number whatever the default, and the
default if the variable gives none (`integer_eq_iff`, `integer_of_not_gives`).
-/

namespace Interlock.Environment

open Text (IntegerType IsBlank Numeral Trimmed)

/-- A variable gives a number of type `t`. -/
def Gives (env : Environment) (t : IntegerType) (name : String) (n : Int) : Prop :=
  ∃ text s, env.text? name = some text ∧ Trimmed text.toList s ∧ Numeral t s n ∧ t.Holds n

variable {env : Environment} {t : IntegerType} {name : String} {n default : Int}

theorem trimmed?_eq_some_iff {s : List Char} : env.trimmed? name = some s ↔
    ∃ text, env.text? name = some text ∧ Trimmed text.toList s := by
  simp only [trimmed?, Option.map_eq_some_iff, Text.trim_eq_iff]

theorem gives_iff : env.Gives t name n ↔
    (env.trimmed? name).bind (Text.readInteger t) = some n := by
  simp only [Gives, Option.bind_eq_some_iff, trimmed?_eq_some_iff, Text.readInteger_eq_some_iff]
  constructor
  · rintro ⟨text, s, found, trimmed, numeral⟩
    exact ⟨s, ⟨text, found, trimmed⟩, numeral⟩
  · rintro ⟨s, ⟨text, found, trimmed⟩, numeral⟩
    exact ⟨text, s, found, trimmed, numeral⟩

theorem Gives.unique {m : Int} (h : env.Gives t name n) (h' : env.Gives t name m) : n = m := by
  rw [gives_iff] at h h'
  exact Option.some.inj (h.symm.trans h')

theorem gives_congr {env' : Environment} (same : env'.text? name = env.text? name) :
    env'.Gives t name n ↔ env.Gives t name n := by
  rw [Gives, Gives, same]

theorem integer_of_gives (h : env.Gives t name n) : env.integer t name default = n := by
  rw [integer, gives_iff.1 h, Option.getD_some]

theorem integer_of_not_gives (h : ∀ n, ¬ env.Gives t name n) :
    env.integer t name default = default := by
  rw [integer, Option.eq_none_iff_forall_ne_some.2 fun n e => h n (gives_iff.2 e),
    Option.getD_none]

/-- A number is the outcome of a lookup whatever the default if the variable gives it. -/
theorem integer_eq_iff : (∀ default, env.integer t name default = n) ↔ env.Gives t name n := by
  refine ⟨fun always => ?_, fun h default => integer_of_gives h⟩
  by_contra other
  have nothing (m : Int) : ¬ env.Gives t name m := by
    intro h
    exact other ((integer_of_gives h).symm.trans (always 0) ▸ h)
  have outcome := always (n + 1)
  rw [integer_of_not_gives nothing] at outcome
  omega

/-- The printed form of a number gives it, in any white space. -/
theorem gives_toString {before after : List Char} (holds : t.Holds n) (blank : IsBlank before)
    (blank' : IsBlank after)
    (found : env.text? name =
      some (String.ofList before ++ toString n ++ String.ofList after)) : env.Gives t name n := by
  have numeral := Text.numeral_toString holds
  refine ⟨_, _, found, ?_, numeral, holds⟩
  simpa only [String.toList_append, String.toList_ofList] using numeral.trimmed blank blank'

/-- **What a lookup accepts.**  A variable yields the number `n`, whatever the default, exactly if
its trimmed text is an optional sign and one or more digits whose value `n` is in the range of the
type; the minus sign is for types with negative values.  Any other variable yields the default.  So
the printed form of a number yields that number, in whatever white space, and the words into which
digits are read never wrap around. -/
theorem accepts_integers (env : Environment) {t : IntegerType} (wide : 8 ≤ t.bits)
    (name : String) :
    (∀ n, (∀ default, env.integer t name default = n) ↔ env.Gives t name n) ∧
    (∀ default, (∀ n, ¬ env.Gives t name n) → env.integer t name default = default) ∧
    (∀ n default before after, t.Holds n → IsBlank before → IsBlank after →
      env.text? name = some (String.ofList before ++ toString n ++ String.ofList after) →
        env.integer t name default = n) ∧
    ∀ s, (Text.readWordInteger t s).map t.value = Text.readInteger t s :=
  ⟨fun _ => integer_eq_iff, fun _ => integer_of_not_gives,
    fun _ _ _ _ holds blank blank' found =>
      integer_of_gives (gives_toString holds blank blank' found),
    Text.map_readWordInteger wide⟩

/-- The least number of a type, which has no positive counterpart, written between a no-break space
and the end of a line. -/
def lowest : Environment where
  vars := [("LEAST", some "\u00a0-9223372036854775808\n"), ("MOST", some "9223372036854775808")]

/-- The least number is looked up, and one more than the greatest is not. -/
theorem accepts_integers_of_lowest :
    let words := IntegerType.withSign 64
    8 ≤ words.bits ∧ (∀ default, lowest.integer words "LEAST" default = -9223372036854775808) ∧
      lowest.integer words "MOST" 7 = 7 := by
  intro words
  have wide : 8 ≤ words.bits := by decide
  obtain ⟨-, -, printed, -⟩ := accepts_integers lowest wide "LEAST"
  obtain ⟨-, otherwise, -⟩ := accepts_integers lowest wide "MOST"
  have past : (lowest.trimmed? "MOST").bind (Text.readInteger words) = none := by decide
  refine ⟨wide, fun default => ?_, otherwise 7 fun n given => ?_⟩
  · exact printed (-9223372036854775808) default ['\u00a0'] ['\n'] (by decide) (by decide)
      (by decide) (by decide)
  · rw [gives_iff, past] at given
    cases given

end Interlock.Environment
