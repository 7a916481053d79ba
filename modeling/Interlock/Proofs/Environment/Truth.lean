import Interlock.Proofs.Environment.Lookup
import Mathlib

/-!
# Truth values from the environment

A variable spells a truth value if its text, trimmed, is one of eight words, whose letters may be
small or capital (`Spells`).  A lookup yields that truth value, and the default if the variable
spells none (`flag_of_spells`, `flag_of_not_spells`).
-/

namespace Interlock.Environment

open Text (Trimmed)

/-- The words for a truth value. -/
def words : Bool → List String
  | true => ["1", "true", "yes", "on"]
  | false => ["0", "false", "no", "off"]

/-- Character by character a word, or the capitals of its letters. -/
def IsCasing (word s : List Char) : Prop := List.Forall₂ (fun d c => c = d ∨ c = d.toUpper) word s

/-- A variable spells a truth value. -/
def Spells (env : Environment) (name : String) (on : Bool) : Prop :=
  ∃ text s, env.text? name = some text ∧ Trimmed text.toList s ∧
    ∃ word ∈ words on, IsCasing word.toList s

variable {env : Environment} {name : String} {on default : Bool} {word s : List Char}

/-! ## Small and capital letters -/

theorem toLower_eq_iff {c d : Char} (small : ¬ d.isUpper) :
    c.toLower = d ↔ c = d ∨ c = d.toUpper := by
  constructor
  · rintro rfl
    by_cases capital : c.isUpper
    · right
      rw [Char.toUpper_toLower_eq_toUpper,
        Char.toUpper_eq_of_not_isLower (Char.not_isLower_of_isUpper capital)]
    · exact .inl (Char.toLower_eq_of_not_isUpper capital).symm
  · rintro (rfl | rfl)
    · exact Char.toLower_eq_of_not_isUpper small
    · rw [Char.toLower_toUpper_eq_toLower, Char.toLower_eq_of_not_isUpper small]

theorem map_toLower_eq_iff (small : ∀ d ∈ word, ¬ d.isUpper) :
    s.map Char.toLower = word ↔ IsCasing word s := by
  induction word generalizing s with
  | nil => simp [IsCasing]
  | cons d word ih =>
    obtain ⟨first, rest⟩ := List.forall_mem_cons.1 small
    cases s with
    | nil => simp [IsCasing]
    | cons c s =>
      rw [List.map_cons, List.cons_eq_cons, ih rest, toLower_eq_iff first, IsCasing, IsCasing,
        List.forall₂_cons]

/-! ## Words -/

theorem mem_spellings {word : String} : (word, on) ∈ spellings ↔ word ∈ words on := by
  cases on <;> simp [spellings, words]

theorem small_of_mem_words {word : String} (h : word ∈ words on) :
    ∀ d ∈ word.toList, ¬ d.isUpper := by
  cases on <;> revert word <;> simp [words]

/-- No word stands for both truth values. -/
theorem spellings_unique : ∀ p ∈ spellings, ∀ q ∈ spellings, p.1 = q.1 → p = q := by decide

theorem readFlag_eq_some_iff :
    readFlag s = some on ↔ ∃ word ∈ words on, IsCasing word.toList s := by
  have spelt {word : String} (h : word ∈ words on) :
      (word.toList == s.map Char.toLower) = true ↔ IsCasing word.toList s := by
    rw [beq_iff_eq, eq_comm, map_toLower_eq_iff (small_of_mem_words h)]
  rw [readFlag, Option.map_eq_some_iff]
  constructor
  · rintro ⟨⟨word, on⟩, found, rfl⟩
    have h := mem_spellings.1 (List.mem_of_find?_eq_some found)
    have same := List.find?_some found
    exact ⟨word, h, (spelt h).1 same⟩
  · rintro ⟨word, h, casing⟩
    have listed := mem_spellings.2 h
    have same := (spelt h).2 casing
    obtain ⟨q, found⟩ : ∃ q, spellings.find? (·.1.toList == s.map Char.toLower) = some q :=
      Option.isSome_iff_exists.1 (List.find?_isSome.2 ⟨_, listed, same⟩)
    -- the entry that is found first has the same letters, so it is the same one
    have same' := List.find?_some found
    have letters : q.1 = word :=
      String.toList_inj.1 ((beq_iff_eq.1 same').trans (beq_iff_eq.1 same).symm)
    have entry := spellings_unique q (List.mem_of_find?_eq_some found) (word, on) listed letters
    exact ⟨q, found, by rw [entry]⟩

/-! ## Lookups -/

theorem spells_iff : env.Spells name on ↔ (env.trimmed? name).bind readFlag = some on := by
  simp only [Spells, Option.bind_eq_some_iff, trimmed?_eq_some_iff, readFlag_eq_some_iff]
  constructor
  · rintro ⟨text, s, found, trimmed, spelling⟩
    exact ⟨s, ⟨text, found, trimmed⟩, spelling⟩
  · rintro ⟨s, ⟨text, found, trimmed⟩, spelling⟩
    exact ⟨text, s, found, trimmed, spelling⟩

theorem spells_congr {env' : Environment} (same : env'.text? name = env.text? name) :
    env'.Spells name on ↔ env.Spells name on := by
  rw [Spells, Spells, same]

theorem flag_of_spells (h : env.Spells name on) : env.flag name default = on := by
  rw [flag, spells_iff.1 h, Option.getD_some]

theorem flag_of_not_spells (h : ∀ on, ¬ env.Spells name on) : env.flag name default = default := by
  rw [flag, Option.eq_none_iff_forall_ne_some.2 fun on e => h on (spells_iff.2 e), Option.getD_none]

end Interlock.Environment
