import Interlock.Pool.Step
import Mathlib.Data.List.Perm.Basic

/-!
# What the theory of a pool looks at

The threads around a pool are told by where their calls stand.  Three views are read off the calls
and the making of the pool: the indices in the hands of submitters (`held`), the reapers
(`reapers`), and the slot in which a submission has installed its job (`Submission.slot?`).  A step
replaces one call, so that each view changes in at most one place (`filterMap_putCall`).
-/

namespace Interlock.Pool

open scoped List

/-! ## Views of one call -/

/-- The index that a submitter has taken and neither used nor put back. -/
def Activity.held? : Activity → Option Nat
  | .submitting _ (.holding index) => some index
  | _ => none

/-- Where a reaper stands. -/
def Activity.reaping? : Activity → Option Reaping
  | .reaping r => some r
  | _ => none

/-- The job that is handed in. -/
def Activity.job? : Activity → Option Nat
  | .submitting job _ => some job
  | _ => none

/-- The slot in which the job was installed. -/
def Submission.slot? : Submission → Option Nat
  | .nudging index _ => some index
  | .accepted index => some index
  | _ => none

/-- Where the maker of a pool stands in stopping the workers, if it has to. -/
def Creation.reaping? : Creation → Option Reaping
  | .rollingBack _ _ r => some r
  | .dropping _ _ r => some r
  | _ => none

/-- The status of a worker whose thread the maker of the pool has not started; there is none if
it was started. -/
def Creation.unborn : Creation → Nat → Option Worker.Status
  | .preparing first, index => if first ≤ index then some .notRunning else none
  | .spawning first, index =>
    if index = first then some .starting else if first < index then some .notRunning else none
  | .storing first, index => if first < index then some .notRunning else none
  | .undoing first _, index =>
    if index = first then some .starting else if first < index then some .notRunning else none
  | .noting first _, index => if first ≤ index then some .notRunning else none
  | .rollingBack first _ _, index => if first ≤ index then some .notRunning else none
  | .dropping first _ _, index => if first ≤ index then some .notRunning else none
  | .failed (.spawn first _), index => if first ≤ index then some .notRunning else none
  | _, _ => none

/-- The worker whose thread the maker of the pool is about to start. -/
def Creation.current? : Creation → Option Nat
  | .preparing index => some index
  | .spawning index => some index
  | .storing index => some index
  | .undoing index _ => some index
  | _ => none

/-- The maker of a pool, woken if it waits at the slot. -/
def Creation.roused (index : Nat) (c : Creation) : Creation :=
  if c = .asleep index then .awaiting index else c

/-- A call, woken if it waits for the reaper. -/
def Call.roused (c : Call) : Call :=
  if c.activity = .reaping .asleep then { c with activity := .reaping .awaiting } else c

/-- A reaper, woken if it waits for another one. -/
def Reaping.roused : Reaping → Reaping
  | .asleep => .awaiting
  | r => r

section Roused

variable (index : Nat) (creation : Creation) (c : Call)

@[simp] theorem Creation.reaping?_roused :
    (creation.roused index).reaping? = creation.reaping? := by
  unfold roused
  split
  · next h => rw [h]; rfl
  · rfl

@[simp] theorem Creation.unborn_roused : (creation.roused index).unborn = creation.unborn := by
  unfold roused
  split
  · next h => rw [h]; rfl
  · rfl

@[simp] theorem Creation.current?_roused :
    (creation.roused index).current? = creation.current? := by
  unfold roused
  split
  · next h => rw [h]; rfl
  · rfl

@[simp] theorem Call.held?_roused : c.roused.activity.held? = c.activity.held? := by
  unfold roused
  split
  · next h => rw [h]; rfl
  · rfl

@[simp] theorem Call.reaping?_roused :
    c.roused.activity.reaping? = c.activity.reaping?.map Reaping.roused := by
  obtain ⟨thread, activity⟩ := c
  cases activity with
  | reaping r => cases r <;> rfl
  | submitting _ _ | nudging _ => rfl

/-- Only reapers are woken. -/
theorem Call.roused_submitting {job : Nat} {s : Submission} :
    c.roused.activity = .submitting job s ↔ c.activity = .submitting job s := by
  obtain ⟨thread, activity⟩ := c
  cases activity with
  | reaping r => cases r <;> simp [roused]
  | submitting _ _ | nudging _ => simp [roused]

end Roused

/-! ## Views of all calls -/

/-- The indices in the hands of submitters. -/
def held (p : Pool) : List Nat := p.calls.toList.filterMap (·.activity.held?)

/-- The reapers among the callers. -/
def callers (p : Pool) : List Reaping := p.calls.toList.filterMap (·.activity.reaping?)

/-- All reapers: the maker of the pool, if it has to undo its work, and the callers. -/
def reapers (p : Pool) : List Reaping := p.creation.reaping?.toList ++ p.callers

/-- The indices that are idle or in the hands of a submitter. -/
def offered (p : Pool) : List Nat := p.idle ++ p.held

/-- A submission of a job. -/
def Submits (p : Pool) (k job : Nat) (s : Submission) : Prop :=
  ∃ c, p.calls[k]? = some c ∧ c.activity = .submitting job s

/-- A submission of a job, and the slot in which it has installed it, if it has. -/
def Lodged (p : Pool) (k job : Nat) (slot? : Option Nat) : Prop :=
  ∃ s, p.Submits k job s ∧ s.slot? = slot?

/-- A call stands at one place of one submission. -/
theorem Submits.unique {p : Pool} {k job : Nat} {s s' : Submission} (h : p.Submits k job s)
    (h' : p.Submits k job s') : s = s' := by
  obtain ⟨c, hc, hs⟩ := h
  obtain ⟨c', hc', hs'⟩ := h'
  obtain rfl : c = c' := Option.some.inj (hc.symm.trans hc')
  rw [hs] at hs'
  cases hs'
  rfl

/-- An index is held if a submission holds it. -/
theorem mem_held {p : Pool} {i : Nat} :
    i ∈ p.held ↔ ∃ k job, p.Submits k job (.holding i) := by
  simp only [held, List.mem_filterMap, Array.mem_toList_iff, Array.mem_iff_getElem?, Submits]
  constructor
  · rintro ⟨⟨thread, activity⟩, ⟨k, hk⟩, hheld⟩
    cases activity with
    | submitting job s =>
      cases s <;> simp only [Activity.held?, reduceCtorEq, Option.some.injEq] at hheld
      subst hheld
      exact ⟨k, job, _, hk, rfl⟩
    | reaping _ | nudging _ => simp [Activity.held?] at hheld
  · rintro ⟨k, job, c, hk, hc⟩
    exact ⟨c, ⟨k, hk⟩, by rw [hc]; rfl⟩

/-- A teardown is called for if a call is at it. -/
theorem mem_callers {p : Pool} {r : Reaping} :
    r ∈ p.callers ↔ ∃ (k : Nat) (c : Call), p.calls[k]? = some c ∧ c.activity = .reaping r := by
  simp only [callers, List.mem_filterMap, Array.mem_toList_iff, Array.mem_iff_getElem?]
  constructor
  · rintro ⟨⟨thread, activity⟩, ⟨k, hk⟩, hr⟩
    cases activity with
    | reaping r' =>
      simp only [Activity.reaping?, Option.some.injEq] at hr
      subst hr
      exact ⟨k, _, hk, rfl⟩
    | submitting _ _ | nudging _ => simp [Activity.reaping?] at hr
  · rintro ⟨k, c, hk, hc⟩
    exact ⟨c, ⟨k, hk⟩, by rw [hc]; rfl⟩

/-- Replaces a call. -/
def putCall (k : Nat) (c : Call) (p : Pool) : Pool :=
  { p with calls := p.calls.setIfInBounds k c }

theorem held_notifyReaped (p : Pool) : p.notifyReaped.held = p.held := by
  show (p.calls.map Call.roused).toList.filterMap (·.activity.held?) = p.held
  rw [Array.toList_map, List.filterMap_map]
  simp only [Function.comp_def, Call.held?_roused]
  rfl

/-- The news of a finished teardown reaches all calls for one. -/
theorem callers_notifyReaped (p : Pool) :
    p.notifyReaped.callers = p.callers.map Reaping.roused := by
  show (p.calls.map Call.roused).toList.filterMap (·.activity.reaping?) = _
  rw [Array.toList_map, List.filterMap_map]
  simp only [Function.comp_def, Call.reaping?_roused, callers, List.map_filterMap]

theorem getElem?_notifyReaped (p : Pool) (k : Nat) :
    p.notifyReaped.calls[k]? = (p.calls[k]?).map Call.roused :=
  Array.getElem?_map ..

/-- After a call moved on, a call is the one that moved or another that did not. -/
theorem getElem?_putCall {p : Pool} {k m : Nat} {c x : Call}
    (h : (p.putCall k c).calls[m]? = some x) :
    m = k ∧ x = c ∨ m ≠ k ∧ p.calls[m]? = some x := by
  simp only [putCall, Array.getElem?_setIfInBounds] at h
  grind

theorem getElem?_putCall_self {p : Pool} {k : Nat} {c x : Call} (h : p.calls[k]? = some x) :
    (p.putCall k c).calls[k]? = some c := by
  obtain ⟨hk, -⟩ := Array.getElem?_eq_some_iff.1 h
  simp [putCall, hk]

theorem getElem?_putCall_of_ne {p : Pool} {k m : Nat} {c : Call} (h : m ≠ k) :
    (p.putCall k c).calls[m]? = p.calls[m]? := by
  simp [putCall, Ne.symm h]

section PutCall

variable {p : Pool} {k : Nat} {c : Call} (hk : p.calls[k]? = some c) (c' : Call)

include hk

/-- Replacing a call replaces what is read off it, in one place of any list of such readings. -/
theorem filterMap_putCall {α : Type} (f : Call → Option α) :
    (f c).toList ++ (p.putCall k c').calls.toList.filterMap f ~
      (f c').toList ++ p.calls.toList.filterMap f := by
  have hc : p.calls.toList[k]? = some c := by simpa using hk
  have swap := List.getD_set_perm_cons p.calls.toList k c'
  rw [hc, Option.getD_some] at swap
  have read (x : Call) (l : List Call) :
      (x :: l).filterMap f = (f x).toList ++ l.filterMap f := by
    rw [List.filterMap_cons]
    cases f x <;> rfl
  simpa only [read, putCall, Array.toList_setIfInBounds] using swap.filterMap f

theorem held_putCall :
    c.activity.held?.toList ++ (p.putCall k c').held ~ c'.activity.held?.toList ++ p.held :=
  filterMap_putCall hk c' (·.activity.held?)

theorem callers_putCall :
    c.activity.reaping?.toList ++ (p.putCall k c').callers ~
      c'.activity.reaping?.toList ++ p.callers :=
  filterMap_putCall hk c' (·.activity.reaping?)

/-- A call that tears nothing down leaves the teardowns as they are. -/
theorem reapers_putCall_of_none (h : c.activity.reaping? = none)
    (h' : c'.activity.reaping? = none) : (p.putCall k c').reapers ~ p.reapers := by
  have same := callers_putCall hk c'
  rw [h, h'] at same
  exact same.append_left _

/-- A call that moves on stands at its new place, and the others where they stood. -/
theorem submits_putCall {m job : Nat} {s : Submission} :
    (p.putCall k c').Submits m job s ↔
      m = k ∧ c'.activity = .submitting job s ∨ m ≠ k ∧ p.Submits m job s := by
  constructor
  · rintro ⟨x, hx, hs⟩
    rcases getElem?_putCall hx with ⟨here, rfl⟩ | ⟨there, hx⟩
    · exact .inl ⟨here, hs⟩
    · exact .inr ⟨there, x, hx, hs⟩
  · rintro (⟨rfl, hs⟩ | ⟨there, x, hx, hs⟩)
    · exact ⟨c', getElem?_putCall_self hk, hs⟩
    · exact ⟨x, by rwa [getElem?_putCall_of_ne there], hs⟩

/-- A call that submits nothing leaves the submissions as they are. -/
theorem submits_putCall_of_none (h : c.activity.job? = none) (h' : c'.activity.job? = none)
    {m job : Nat} {s : Submission} : (p.putCall k c').Submits m job s ↔ p.Submits m job s := by
  rw [submits_putCall hk]
  constructor
  · rintro (⟨-, hs⟩ | ⟨-, old⟩)
    · simp [hs, Activity.job?] at h'
    · exact old
  · rintro ⟨x, hx, hs⟩
    refine .inr ⟨?_, x, hx, hs⟩
    rintro rfl
    obtain rfl : c = x := Option.some.inj (hk.symm.trans hx)
    simp [hs, Activity.job?] at h

end PutCall

theorem submits_notifyReaped {p : Pool} {k job : Nat} {s : Submission} :
    p.notifyReaped.Submits k job s ↔ p.Submits k job s := by
  simp only [Submits, getElem?_notifyReaped, Option.map_eq_some_iff]
  constructor
  · rintro ⟨_, ⟨c, hc, rfl⟩, hs⟩
    exact ⟨c, hc, c.roused_submitting.1 hs⟩
  · rintro ⟨c, hc, hs⟩
    exact ⟨c.roused, ⟨c, hc, rfl⟩, c.roused_submitting.2 hs⟩

/-- A new call stands at its first place, and the others where they stood. -/
theorem submits_addCall {p : Pool} {thread : Thread} {activity : Activity} {k job : Nat}
    {s : Submission} :
    (p.addCall thread activity).Submits k job s ↔
      k = p.calls.size ∧ activity = .submitting job s ∨ p.Submits k job s := by
  simp only [Submits, addCall, Array.getElem?_push]
  constructor
  · rintro ⟨c, hc, hs⟩
    split at hc
    · next here =>
      cases hc
      exact .inl ⟨here, hs⟩
    · exact .inr ⟨c, hc, hs⟩
  · rintro (⟨rfl, hs⟩ | ⟨c, hc, hs⟩)
    · exact ⟨_, if_pos rfl, hs⟩
    · have inside := (Array.getElem?_eq_some_iff.1 hc).1
      exact ⟨c, by rwa [if_neg (by omega)], hs⟩

section Lodged

variable {p q : Pool} {k m job job' : Nat} {o o' : Option Nat}

/-- A submission lodges one job, at one place. -/
theorem Lodged.unique (h : p.Lodged k job o) (h' : p.Lodged k job' o') : job = job' ∧ o = o' := by
  obtain ⟨s, ⟨c, hc, hs⟩, rfl⟩ := h
  obtain ⟨s', ⟨c', hc', hs'⟩, rfl⟩ := h'
  obtain rfl : c = c' := Option.some.inj (hc.symm.trans hc')
  rw [hs] at hs'
  cases hs'
  exact ⟨rfl, rfl⟩

theorem lodged_congr (h : ∀ k job s, q.Submits k job s ↔ p.Submits k job s) :
    q.Lodged k job o ↔ p.Lodged k job o := by
  simp only [Lodged, h]

/-- A submission that moves on lodges its job where it stands then. -/
theorem lodged_putCall {c : Call} {s s' : Submission} (hc : p.calls[k]? = some c)
    (hs : c.activity = .submitting job s) :
    (p.putCall k { c with activity := .submitting job s' }).Lodged m job' o ↔
      m = k ∧ job' = job ∧ o = s'.slot? ∨ m ≠ k ∧ p.Lodged m job' o := by
  simp only [Lodged, submits_putCall hc, Activity.submitting.injEq]
  constructor
  · rintro ⟨t, ⟨here, rfl, rfl⟩ | ⟨there, old⟩, rfl⟩
    · exact .inl ⟨here, rfl, rfl⟩
    · exact .inr ⟨there, t, old, rfl⟩
  · rintro (⟨here, rfl, rfl⟩ | ⟨there, t, old, ht⟩)
    · exact ⟨s', .inl ⟨here, rfl, rfl⟩, rfl⟩
    · exact ⟨t, .inr ⟨there, old⟩, ht⟩

/-- A submission that keeps its job where it is changes nothing that is lodged. -/
theorem lodged_putCall_same {c : Call} {s s' : Submission} (hc : p.calls[k]? = some c)
    (hs : c.activity = .submitting job s) (same : s'.slot? = s.slot?) :
    (p.putCall k { c with activity := .submitting job s' }).Lodged m job' o ↔
      p.Lodged m job' o := by
  have here : p.Lodged k job s.slot? := ⟨s, ⟨c, hc, hs⟩, rfl⟩
  rw [lodged_putCall hc hs, same]
  constructor
  · rintro (⟨rfl, rfl, rfl⟩ | ⟨-, old⟩)
    · exact here
    · exact old
  · intro old
    by_cases own : m = k
    · subst own
      obtain ⟨rfl, rfl⟩ := here.unique old
      exact .inl ⟨rfl, rfl, rfl⟩
    · exact .inr ⟨own, old⟩

end Lodged

theorem filterMap_addCall {α : Type} (f : Call → Option α) (p : Pool) (thread : Thread)
    (activity : Activity) :
    (p.addCall thread activity).calls.toList.filterMap f =
      p.calls.toList.filterMap f ++ (f { thread, activity }).toList := by
  simp only [addCall, Array.toList_push, List.filterMap_append]
  congr 1

end Interlock.Pool
