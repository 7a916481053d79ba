import Interlock.Text.Blank
import Mathlib.Data.List.DropRight

/-!
# Trimming

`trim` takes the white space off both ends of a text and nothing else (`trim_eq_iff`): a text is
white space, its trimmed form, and white space (`exists_trim`), the trimmed form neither begins nor
ends with white space (`head?_trim`, `getLast?_trim`), and no other part of the text is like that
(`Trimmed.trim_eq`).
-/

namespace Interlock.Text

/-- Nothing but white space. -/
def IsBlank (s : List Char) : Prop := ∀ c ∈ s, isBlank c = true

instance (s : List Char) : Decidable (IsBlank s) := List.decidableBAll _ s

theorem trim_eq_rdropWhile (s : List Char) :
    trim s = (s.dropWhile isBlank).rdropWhile isBlank := rfl

theorem isBlank_takeWhile (s : List Char) : IsBlank (s.takeWhile isBlank) :=
  fun _ hc => List.mem_takeWhile_imp hc

/-- A text is its trimmed form between white space. -/
theorem exists_trim (s : List Char) :
    ∃ before after, s = before ++ trim s ++ after ∧ IsBlank before ∧ IsBlank after := by
  refine ⟨s.takeWhile isBlank, (s.dropWhile isBlank).rtakeWhile isBlank, ?_,
    isBlank_takeWhile s, fun c hc => List.mem_rtakeWhile_imp hc⟩
  rw [trim_eq_rdropWhile, List.append_assoc, List.rdropWhile_append_rtakeWhile,
    List.takeWhile_append_dropWhile]

theorem getLast?_trim (s : List Char) : ∀ c ∈ (trim s).getLast?, isBlank c = false := by
  intro c hc
  obtain ⟨nonempty, rfl⟩ := List.mem_getLast?_eq_getLast hc
  exact Bool.eq_false_iff.2 (List.rdropWhile_last_not isBlank (s.dropWhile isBlank) nonempty)

theorem head?_trim (s : List Char) : ∀ c ∈ (trim s).head?, isBlank c = false := by
  intro c hc
  rw [trim_eq_rdropWhile] at hc
  obtain ⟨rest, split⟩ := List.rdropWhile_prefix isBlank (s.dropWhile isBlank)
  obtain ⟨tail, front⟩ := List.head?_eq_some_iff.1 hc
  -- the first character of the trimmed form is the first one that is left after the front
  have first : (s.dropWhile isBlank).head? = some c := by
    rw [← split, front]
    rfl
  have kept := List.head?_dropWhile_not isBlank s
  rw [first] at kept
  simpa using kept

/-- A text without the white space at its ends. -/
structure Trimmed (text s : List Char) : Prop where
  around : ∃ before after, text = before ++ s ++ after ∧ IsBlank before ∧ IsBlank after
  first : ∀ c ∈ s.head?, isBlank c = false
  last : ∀ c ∈ s.getLast?, isBlank c = false

theorem Trimmed.trim_eq {text s : List Char} (h : Trimmed text s) : trim text = s := by
  obtain ⟨before, after, rfl, blank, blank'⟩ := h.around
  have behind : (s ++ after).rdropWhile isBlank = s := by
    have off : (s ++ after).rdropWhile isBlank = s.rdropWhile isBlank := by
      rw [List.rdropWhile, List.reverse_append,
        List.dropWhile_append_of_pos fun c hc => blank' c (List.mem_reverse.1 hc)]
      rfl
    rw [off, List.rdropWhile_eq_self_iff]
    intro nonempty
    simpa using h.last _ (List.getLast?_eq_some_getLast nonempty)
  rw [trim_eq_rdropWhile, List.append_assoc, List.dropWhile_append_of_pos blank]
  cases s with
  | nil =>
    have nothing : after.dropWhile isBlank = [] := List.dropWhile_eq_nil_iff.2 blank'
    rw [List.nil_append, nothing, List.rdropWhile_nil]
  | cons c s =>
    have begins : isBlank c = false := h.first c rfl
    rw [List.cons_append, List.dropWhile_cons_of_neg (by simp [begins])]
    exact behind

/-- Trimming removes the white space at both ends. -/
theorem trim_eq_iff {text s : List Char} : trim text = s ↔ Trimmed text s := by
  constructor
  · rintro rfl
    exact ⟨exists_trim text, head?_trim text, getLast?_trim text⟩
  · exact Trimmed.trim_eq

end Interlock.Text
