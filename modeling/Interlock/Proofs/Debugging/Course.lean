import Interlock.Log
import Mathlib.Data.List.Forall2

/-!
# Runs that differ in silent steps

A lock is told to log more or less by steps that do nothing else.  Such steps are silent: an
observer sees the other steps only, each with its reply and the state that it leaves (`course`).
When the observer looks at states through a view that silent steps do not change, and that decides
what the other steps do, two runs with the same audible steps look alike step by step
(`forall₂_course`).
-/

namespace Interlock

namespace Log

/-- The lines of a log that stand there whether or not anything is being debugged. -/
def quiet (log : List Line) : List Line := log.filter (·.level ≠ .debug)

@[simp] theorem quiet_debugIf (on : Bool) (text : String) (log : List Line) :
    quiet (debugIf on text log) = quiet log := by
  cases on <;> simp [quiet, debugIf, Line.debug]

@[simp] theorem quiet_error (text : String) (log : List Line) :
    quiet (.error text :: log) = .error text :: quiet log := by
  simp [quiet, Line.error]

@[simp] theorem quiet_warn (text : String) (log : List Line) :
    quiet (.warn text :: log) = .warn text :: quiet log := by
  simp [quiet, Line.warn]

end Log

namespace Debugging

section Course

variable {A R S H : Type} (perform : A → S → R × S) (silent : A → Bool)

/-- What an observer sees of a run: each audible step's reply and the state after it. -/
def course : List A → S → List (R × S)
  | [], _ => []
  | a :: as, s =>
    if silent a then course as (perform a s).2 else perform a s :: course as (perform a s).2

/-- The state that a run ends in. -/
def final : List A → S → S
  | [], s => s
  | a :: as, s => final as (perform a s).2

/-- Two steps seen by an observer: replies that are alike, and states that look the same. -/
def SeenAlike (view : S → H) (alike : R → R → Prop) (x y : R × S) : Prop :=
  alike x.1 y.1 ∧ view x.2 = view y.2

variable {perform silent} {view : S → H} {alike : R → R → Prop}
  (unseen : ∀ a s, silent a = true → view (perform a s).2 = view s)
  (heard : ∀ a s t, silent a = false → view s = view t →
    SeenAlike view alike (perform a s) (perform a t))

include unseen in
/-- Silent steps in front of a run only lead to another state that looks the same. -/
theorem course_of_silent {front : List A} (rest : List A) (h : ∀ a ∈ front, silent a = true)
    (s : S) :
    ∃ t, view t = view s ∧ course perform silent (front ++ rest) s = course perform silent rest t ∧
      final perform (front ++ rest) s = final perform rest t := by
  induction front generalizing s with
  | nil => exact ⟨s, rfl, rfl, rfl⟩
  | cons a front ih =>
    have ha : silent a = true := h a List.mem_cons_self
    obtain ⟨t, ht, courses, finals⟩ := ih (fun x hx => h x (List.mem_cons_of_mem a hx))
      (perform a s).2
    refine ⟨t, ht.trans (unseen a s ha), ?_, finals⟩
    rw [List.cons_append, course, if_pos ha, courses]

include unseen heard in
/-- Runs with the same audible steps look alike, whatever silent steps are among them. -/
theorem forall₂_course {as bs : List A}
    (same : as.filter (!silent ·) = bs.filter (!silent ·)) {s t : S} (h : view s = view t) :
    List.Forall₂ (SeenAlike view alike) (course perform silent as s)
        (course perform silent bs t) ∧
      view (final perform as s) = view (final perform bs t) := by
  induction as generalizing bs s t with
  | nil =>
    have still : ∀ b ∈ bs, silent b = true := by simpa using same.symm
    obtain ⟨u, hu, courses, finals⟩ := course_of_silent unseen [] still t
    rw [List.append_nil] at courses finals
    rw [courses, finals]
    exact ⟨.nil, h.trans hu.symm⟩
  | cons a as ih =>
    by_cases ha : silent a = true
    · rw [course, if_pos ha, final]
      exact ih (by simpa [ha] using same) ((unseen a s ha).trans h)
    · have audible : silent a = false := Bool.not_eq_true _ ▸ ha
      -- the other run comes to the same step after some silent ones of its own
      obtain ⟨front, rest, rfl, still, -, same'⟩ := List.filter_eq_cons_iff.1
        (by simpa [audible] using same.symm : bs.filter (!silent ·) = a :: as.filter (!silent ·))
      obtain ⟨u, hu, courses, finals⟩ := course_of_silent unseen (a :: rest)
        (by simpa using still) t
      rw [courses, finals]
      have seen := heard a s u audible (h.trans hu.symm)
      obtain ⟨later, ends⟩ := ih same'.symm seen.2
      rw [course, if_neg ha, course, if_neg ha, final, final]
      exact ⟨.cons seen later, ends⟩

end Course

end Debugging

end Interlock
