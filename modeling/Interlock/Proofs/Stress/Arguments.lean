import Interlock.Proofs.Text.Numeral
import Interlock.Stress.Arguments
import Mathlib.Algebra.Ring.Nat
import Mathlib.Data.List.Induction

/-!
# What the arguments of a stress run come to

The arguments are options, numbers of iterations, and others that are ignored.  The last number
counts (`iterations_of_last`).  The verbosity is the sum of the options' letters, each option's
counted modulo 256, and 255 if that is less (`verbosity_ofList`): so it is the number of all letters
as long as no option has more than 255 of them, and an option of 256 letters is not heard at all
(`exists_unheard`).
-/

namespace Interlock.Stress.Arguments

open Text (IntegerType Numeral)

/-- A hyphen and nothing but `v`s. -/
def IsOption (arg : String) : Prop :=
  arg.toList.head? = some '-' ∧ ∀ c ∈ arg.toList.tail, c = 'v'

instance (arg : String) : Decidable (IsOption arg) :=
  haveI := List.decidableBAll (· = 'v') arg.toList.tail
  inferInstanceAs (Decidable (_ ∧ _))

/-- The `v`s of an argument. -/
def letters (arg : String) : Nat := arg.toList.count 'v'

/-- The options among some arguments. -/
def options (args : List String) : List String := args.filter (IsOption ·)

/-- The arguments that are no options. -/
def others (args : List String) : List String := args.filter (¬ IsOption ·)

/-- An argument that is a numeral of a number that a word holds. -/
def Gives (arg : String) (n : Nat) : Prop :=
  Numeral (.unsigned 64) arg.toList n ∧ (IntegerType.unsigned 64).Holds n

variable {arg : String} {args args' : List String} {n : Nat}

/-! ## One argument -/

theorem IsOption.toList_eq (h : IsOption arg) :
    arg.toList = '-' :: List.replicate (letters arg) 'v' := by
  obtain ⟨rest, split⟩ := List.head?_eq_some_iff.1 h.1
  have all : rest = List.replicate rest.length 'v' :=
    List.eq_replicate_iff.2 ⟨rfl, fun c hc => h.2 c (by rwa [split])⟩
  have count : letters arg = rest.length := by
    rw [letters, split, all]
    simp
  rw [split, count, ← all]

theorem option?_of_isOption (h : IsOption arg) : option? arg = some (letters arg) := by
  unfold option?
  rw [h.toList_eq]
  simp

theorem option?_of_not_isOption (h : ¬ IsOption arg) : option? arg = none := by
  unfold option?
  split
  · next rest split =>
    refine if_neg fun all => h ⟨by rw [split]; rfl, fun c hc => ?_⟩
    rw [split] at hc
    simpa using List.all_eq_true.1 all c hc
  · rfl

theorem iterations?_eq_some_iff : iterations? arg = some n ↔ Gives arg n := by
  simp only [iterations?, Option.map_eq_some_iff, Text.readInteger_eq_some_iff, Gives]
  constructor
  · rintro ⟨m, ⟨numeral, holds⟩, rfl⟩
    rw [Int.toNat_of_nonneg holds.1]
    exact ⟨numeral, holds⟩
  · rintro ⟨numeral, holds⟩
    exact ⟨n, ⟨numeral, holds⟩, Int.toNat_natCast n⟩

/-! ## All arguments -/

theorem ofList_concat (args : List String) (arg : String) :
    ofList (args ++ [arg]) = (ofList args).add arg := by
  simp [ofList]

theorem options_concat (args : List String) (arg : String) :
    options (args ++ [arg]) = options args ++ if IsOption arg then [arg] else [] := by
  by_cases h : IsOption arg <;> simp [options, h]

theorem others_concat (args : List String) (arg : String) :
    others (args ++ [arg]) = others args ++ if IsOption arg then [] else [arg] := by
  by_cases h : IsOption arg <;> simp [others, h]

/-- The verbosity is the sum of what the options come to in a byte, up to the largest byte. -/
theorem verbosity_ofList (args : List String) :
    (ofList args).verbosity = min 255 ((options args).map fun arg => letters arg % 256).sum := by
  induction args using List.reverseRecOn with
  | nil => rfl
  | append_singleton args arg ih =>
    rw [ofList_concat, add, options_concat, List.map_append, List.sum_append]
    by_cases h : IsOption arg
    · rw [option?_of_isOption h, if_pos h, List.map_singleton, List.sum_singleton]
      dsimp only [raise]
      rw [ih]
      omega
    · rw [option?_of_not_isOption h, if_neg h]
      cases iterations? arg <;> exact ih

/-- The number of iterations is the last one given. -/
theorem iterations_ofList (args : List String) :
    (ofList args).iterations = ((others args).filterMap iterations?).getLast?.getD 10000 := by
  induction args using List.reverseRecOn with
  | nil => rfl
  | append_singleton args arg ih =>
    rw [ofList_concat, add, others_concat, List.filterMap_append]
    by_cases h : IsOption arg
    · rw [option?_of_isOption h, if_pos h, List.filterMap_nil, List.append_nil]
      exact ih
    · rw [option?_of_not_isOption h, if_neg h]
      cases given : iterations? arg with
      | none => simp [ih, given]
      | some n => simp [given]

theorem iterations_of_last {front back : List String} (split : others args = front ++ arg :: back)
    (given : Gives arg n) (last : ∀ other ∈ back, ∀ m, ¬ Gives other m) :
    (ofList args).iterations = n := by
  have silent : back.filterMap iterations? = [] :=
    List.filterMap_eq_nil_iff.2 fun other h =>
      Option.eq_none_iff_forall_ne_some.2 fun m e => last other h m (iterations?_eq_some_iff.1 e)
  rw [iterations_ofList, split, List.filterMap_append,
    List.filterMap_cons_some (iterations?_eq_some_iff.2 given), silent, List.getLast?_concat,
    Option.getD_some]

theorem iterations_of_none (silent : ∀ arg ∈ others args, ∀ n, ¬ Gives arg n) :
    (ofList args).iterations = 10000 := by
  have nothing : (others args).filterMap iterations? = [] :=
    List.filterMap_eq_nil_iff.2 fun arg h =>
      Option.eq_none_iff_forall_ne_some.2 fun n e => silent arg h n (iterations?_eq_some_iff.1 e)
  rw [iterations_ofList, nothing, List.getLast?_nil, Option.getD_none]

/-- Neither the order of the options nor where they stand among the others matters. -/
theorem ofList_congr (same : (options args').Perm (options args))
    (same' : others args' = others args) : ofList args' = ofList args := by
  have verbosity : (ofList args').verbosity = (ofList args).verbosity := by
    rw [verbosity_ofList, verbosity_ofList, (same.map _).sum_nat]
  have iterations : (ofList args').iterations = (ofList args).iterations := by
    rw [iterations_ofList, iterations_ofList, same']
  calc
    ofList args' = ⟨(ofList args').verbosity, (ofList args').iterations⟩ := rfl
    _ = ofList args := by rw [verbosity, iterations]

/-- As long as no option has more letters than a byte can count, all letters count. -/
theorem verbosity_of_short (short : ∀ arg ∈ options args, letters arg < 256) :
    (ofList args).verbosity = min 255 ((options args).map letters).sum := by
  rw [verbosity_ofList, List.map_congr_left fun arg h => Nat.mod_eq_of_lt (short arg h)]

/-- **What the arguments come to.**  The verbosity is the sum of the options' letters, those of each
option modulo 256, and at most 255.  It is the number of all letters, and at most 255, if no option
has more than 255.  The number of iterations is the last one given by an argument that is no option,
and 10000 if there is none.  Other arguments change nothing, and neither does the order of the
options, nor where they stand. -/
theorem counts_arguments (args : List String) :
    (ofList args).verbosity = min 255 ((options args).map fun arg => letters arg % 256).sum ∧
    ((∀ arg ∈ options args, letters arg < 256) →
      (ofList args).verbosity = min 255 ((options args).map letters).sum) ∧
    (∀ front arg back n, others args = front ++ arg :: back → Gives arg n →
      (∀ other ∈ back, ∀ m, ¬ Gives other m) → (ofList args).iterations = n) ∧
    ((∀ arg ∈ others args, ∀ n, ¬ Gives arg n) → (ofList args).iterations = 10000) ∧
    ∀ args', (options args').Perm (options args) → others args' = others args →
      ofList args' = ofList args :=
  ⟨verbosity_ofList args, verbosity_of_short, fun _ _ _ _ => iterations_of_last, iterations_of_none,
    fun _ => ofList_congr⟩

/-- Two options around two numbers and an argument that is neither. -/
theorem counts_arguments_of_mixed :
    let args := ["-vv", "3", "-v", "+007", "7 "]
    (ofList args).verbosity = 3 ∧ (ofList args).iterations = 7 ∧
      ofList ["3", "+007", "-v", "7 ", "-vv"] = ofList args := by
  intro args
  obtain ⟨-, all, last, -, order⟩ := counts_arguments args
  refine ⟨?_, ?_, ?_⟩
  · rw [all (by decide)]
    decide
  · refine last ["3"] "+007" ["7 "] 7 (by decide) ?_ ?_
    · exact iterations?_eq_some_iff.1 (by decide)
    · intro other h m given
      have silent : iterations? "7 " = none := by decide
      rw [List.mem_singleton.1 h, ← iterations?_eq_some_iff, silent] at given
      cases given
  · exact order _ (by decide) (by decide)

/-- **An option of 256 letters is not heard.**  The verbosity stays at 0, and what is shown is what
is shown without any option. -/
theorem exists_unheard :
    let args := [String.ofList ('-' :: List.replicate 256 'v')]
    ((options args).map letters).sum = 256 ∧ (ofList args).verbosity = 0 ∧
      (ofList args).threshold {} = (ofList []).threshold {} := by
  decide +kernel

end Interlock.Stress.Arguments
