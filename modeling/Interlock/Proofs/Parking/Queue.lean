import Mathlib.Tactic.Common

/-!
# A queue of sleepers

Both kinds of parking place number their parking calls, keep those that sleep in a queue and count
those that are parked.  They differ in where a call can stand: here `asleep` is the place of a call
that sleeps, and `isIn` tells of a place whether a call there counts as parked.  That queue, calls
and count go together (`Sound`) is kept when a call begins, moves on, falls asleep or wakes up.
-/

namespace Interlock.Parking

variable {P : Type}

/-- One call more or less counts when a call moves to another place. -/
theorem countP_set (counts : P → Bool) {parks : List P} {q : Nat} {a : P}
    (here : parks[q]? = some a) (a' : P) :
    (parks.set q a').countP counts + (if counts a then 1 else 0) =
      parks.countP counts + if counts a' then 1 else 0 := by
  obtain ⟨inside, rfl⟩ := List.getElem?_eq_some_iff.1 here
  have counted : counts parks[q] = true → 0 < parks.countP counts := fun isIn =>
    List.countP_pos_iff.2 ⟨_, List.getElem_mem inside, isIn⟩
  rw [List.countP_set inside]
  split
  · next isIn =>
    have := counted isIn
    omega
  · omega

/-- A call that moves to where it stands does not move. -/
theorem set_of_getElem? {parks : List P} {q : Nat} {a : P} (here : parks[q]? = some a) :
    parks.set q a = parks := by
  obtain ⟨inside, same⟩ := List.getElem?_eq_some_iff.1 here
  rw [← same, List.set_getElem_self]

/-- The calls in a list move to one place. -/
def setAll (a : P) (calls : List Nat) (parks : List P) : List P :=
  calls.foldl (fun parks call => parks.set call a) parks

theorem getElem?_set_eq_map (a : P) (parks : List P) (q p : Nat) :
    (parks.set q a)[p]? = if p = q then parks[p]?.map fun _ => a else parks[p]? := by
  rw [List.getElem?_set]
  by_cases same : p = q
  · subst same
    by_cases inside : p < parks.length <;> simp [inside]
  · simp [same, Ne.symm same]

theorem getElem?_setAll (a : P) (calls : List Nat) (parks : List P) (p : Nat) :
    (setAll a calls parks)[p]? = if p ∈ calls then parks[p]?.map fun _ => a else parks[p]? := by
  induction calls generalizing parks with
  | nil => rfl
  | cons call calls ih =>
    refine (ih (parks.set call a)).trans ?_
    rw [getElem?_set_eq_map]
    by_cases first : p = call
    · simp only [first, ↓reduceIte, List.mem_cons_self]
      split
      · rw [Option.map_map]
        rfl
      · rfl
    · simp only [first, ↓reduceIte, List.mem_cons, false_or]

/-- Those who wake up leave the queue one after the other. -/
theorem filter_notMem_cons (sleepers : List Nat) (call : Nat) (calls : List Nat) :
    sleepers.filter (· ∉ call :: calls) =
      (sleepers.filter (· ≠ call)).filter (· ∉ calls) := by
  simp [List.filter_filter, Bool.and_comm]

theorem filter_notMem_nil (sleepers : List Nat) : sleepers.filter (· ∉ []) = sleepers :=
  List.filter_eq_self.2 (by simp)

/-- The queue holds the calls that sleep, each once, and the count is that of the parked calls. -/
structure Sound (asleep : P) (isIn : P → Bool) (sleepers : List Nat) (parks : List P)
    (parked : Nat) : Prop where
  queued : ∀ p, p ∈ sleepers ↔ parks[p]? = some asleep
  distinct : sleepers.Nodup
  counted : parked = parks.countP isIn

namespace Sound

variable {asleep : P} {isIn : P → Bool} {sleepers : List Nat} {parks : List P} {parked : Nat}
  {p q : Nat} {a a' : P}

theorem fresh : Sound asleep isIn [] [] 0 := ⟨by simp, List.nodup_nil, rfl⟩

/-- A call that counts as parked is counted. -/
theorem parked_pos (h : Sound asleep isIn sleepers parks parked) (here : parks[p]? = some a)
    (counts : isIn a = true) : 0 < parked := by
  rw [h.counted]
  exact List.countP_pos_iff.2 ⟨a, List.mem_of_getElem? here, counts⟩

/-- A new call stands where it neither sleeps nor counts. -/
theorem concat (h : Sound asleep isIn sleepers parks parked) (awake : a ≠ asleep)
    (out : isIn a = false) : Sound asleep isIn sleepers (parks ++ [a]) parked := by
  refine ⟨fun p => (h.queued p).trans ?_, h.distinct, ?_⟩
  · by_cases inside : p < parks.length
    · rw [List.getElem?_append_left inside]
    · have outside := Nat.le_of_not_lt inside
      rw [List.getElem?_append_right outside, List.getElem?_eq_none outside]
      cases p - parks.length <;> simp [awake]
  · simp [h.counted, out]

/-- A call that is not asleep moves to another place where it is not. -/
theorem set (h : Sound asleep isIn sleepers parks parked) {parked' : Nat}
    (here : parks[q]? = some a) (awake : a ≠ asleep) (awake' : a' ≠ asleep)
    (counted : parked' + (if isIn a then 1 else 0) = parked + if isIn a' then 1 else 0) :
    Sound asleep isIn sleepers (parks.set q a') parked' := by
  refine ⟨fun p => ?_, h.distinct, ?_⟩
  · rw [h.queued p, getElem?_set_eq_map]
    by_cases same : p = q
    · simp [same, here, awake, awake']
    · rw [if_neg same]
  · have moved := countP_set isIn here a'
    have before := h.counted
    omega

/-- A call falls asleep and goes to the end of the queue. -/
theorem fallAsleep (h : Sound asleep isIn sleepers parks parked) {parked' : Nat}
    (here : parks[q]? = some a) (awake : a ≠ asleep)
    (counted : parked' + (if isIn a then 1 else 0) = parked + if isIn asleep then 1 else 0) :
    Sound asleep isIn (sleepers ++ [q]) (parks.set q asleep) parked' := by
  have out : q ∉ sleepers := by simp [h.queued q, here, awake]
  refine ⟨fun p => ?_, ?_, ?_⟩
  · rw [getElem?_set_eq_map]
    by_cases same : p = q
    · simp [same, here]
    · simp [same, h.queued p]
  · refine List.nodup_append.2 ⟨h.distinct, List.pairwise_singleton _ q, ?_⟩
    rintro p isQueued other last rfl
    rw [List.mem_singleton] at last
    exact out (last ▸ isQueued)
  · have moved := countP_set isIn here asleep
    have before := h.counted
    omega

/-- A sleeper wakes up; it stays parked. -/
theorem rouse (h : Sound asleep isIn sleepers parks parked) (isQueued : q ∈ sleepers)
    (awake : a ≠ asleep) (stays : isIn a = isIn asleep) :
    Sound asleep isIn (sleepers.filter (· ≠ q)) (parks.set q a) parked := by
  have here := (h.queued q).1 isQueued
  refine ⟨fun p => ?_, h.distinct.filter _, ?_⟩
  · rw [getElem?_set_eq_map]
    by_cases same : p = q
    · simp [same, here, awake]
    · simp [same, h.queued p]
  · have moved := countP_set isIn here a
    have before := h.counted
    rw [stays] at moved
    omega

/-- Several sleepers wake up. -/
theorem rouseAll (h : Sound asleep isIn sleepers parks parked) {calls : List Nat}
    (areQueued : ∀ q ∈ calls, q ∈ sleepers) (distinct : calls.Nodup) (awake : a ≠ asleep)
    (stays : isIn a = isIn asleep) :
    Sound asleep isIn (sleepers.filter (· ∉ calls)) (setAll a calls parks) parked := by
  induction calls generalizing sleepers parks with
  | nil => rwa [filter_notMem_nil]
  | cons call calls ih =>
    obtain ⟨once, distinct⟩ := List.nodup_cons.1 distinct
    have first := h.rouse (areQueued call List.mem_cons_self) awake stays
    have later : ∀ q ∈ calls, q ∈ sleepers.filter (· ≠ call) := fun q isIn => by
      have other : q ≠ call := fun same => once (same ▸ isIn)
      simp [areQueued q (List.mem_cons_of_mem call isIn), other]
    rw [filter_notMem_cons]
    exact ih first later distinct

/-- The first sleepers of the queue wake up. -/
theorem rouseFirst (h : Sound asleep isIn sleepers parks parked) (count : Nat) (awake : a ≠ asleep)
    (stays : isIn a = isIn asleep) :
    Sound asleep isIn (sleepers.filter (· ∉ sleepers.take count))
      (setAll a (sleepers.take count) parks) parked :=
  h.rouseAll (fun _ => List.mem_of_mem_take) (h.distinct.sublist (List.take_sublist _ _)) awake
    stays

end Sound

end Interlock.Parking
