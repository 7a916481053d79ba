import Interlock.Proofs.Pool.Slots

/-!
# The indices on offer

A worker goes on offer when it attaches itself and when it comes back from a job; it goes off when
a submitter fills its cell, and only while the pool does not stop.  Once the pool stops nobody is
installed any more, so that a worker may leave while its index is still on offer.
-/

namespace Interlock.Pool

open scoped List

variable {p q : Pool} {log : Array (Thread × Log.Line)}

/-! ## Workers and queues that change -/

section Offers

variable {stopping : Bool} {workers : List Worker} {offered : List Nat}

theorem Offers.perm (h : Offers stopping workers offered) {offered' : List Nat}
    (same : offered' ~ offered) : Offers stopping workers offered' where
  nodup := same.nodup_iff.2 h.nodup
  sleeps i hi := h.sleeps i (same.mem_iff.1 hi)
  complete hs i w hw hsleeps := same.mem_iff.2 (h.complete hs i w hw hsleeps)

variable (h : Offers stopping workers offered) {i : Nat} {w x : Worker}
  (hw : workers[i]? = some w)

include h

/-- A pool that stops asks less. -/
theorem Offers.stop {stopping' : Bool} (hs : stopping = true → stopping' = true) :
    Offers stopping' workers offered where
  nodup := h.nodup
  sleeps i hi := by
    obtain ⟨w, hw, status⟩ := h.sleeps i hi
    exact ⟨w, hw, status.imp id fun left => ⟨hs left.1, left.2⟩⟩
  complete hs' i w hw := by
    refine h.complete ?_ i w hw
    by_contra stops
    simp [hs (by simpa using stops)] at hs'

theorem Offers.undisturbed {workers' : List Worker}
    (before : ∀ (j : Nat) (x : Worker), workers'[j]? = some x →
      ∃ w, workers[j]? = some w ∧ x.slot = w.slot)
    (after : ∀ (j : Nat) (w : Worker), workers[j]? = some w →
      ∃ x, workers'[j]? = some x ∧ x.slot = w.slot) :
    Offers stopping workers' offered where
  nodup := h.nodup
  sleeps i hi := by
    obtain ⟨w, hw, status⟩ := h.sleeps i hi
    obtain ⟨x, hx, same⟩ := after i w hw
    exact ⟨x, hx, by rwa [same]⟩
  complete hs i x hx sleeps := by
    obtain ⟨w, hw, same⟩ := before i x hx
    exact h.complete hs i w hw (by rwa [← same])

/-- One entry less, while the pool stops. -/
theorem Offers.drop {rest : List Nat} (hs : stopping = true) (some_less : offered = i :: rest) :
    Offers stopping workers rest where
  nodup := by
    have nodup := h.nodup
    rw [some_less] at nodup
    exact (List.nodup_cons.1 nodup).2
  sleeps j hj := h.sleeps j (some_less ▸ List.mem_cons_of_mem _ hj)
  complete hs' := by simp [hs] at hs'

include hw

/-- A worker changes and is on offer as before. -/
theorem Offers.set
    (sleeps : i ∈ offered → x.slot.status = .sleeping ∨
      stopping = true ∧ x.slot.status = .notRunning)
    (complete : stopping = false → x.slot.status = .sleeping → i ∈ offered) :
    Offers stopping (workers.set i x) offered where
  nodup := h.nodup
  sleeps j hj := by
    by_cases here : i = j
    · subst here
      exact ⟨x, List.getElem?_set_self (List.getElem?_eq_some_iff.1 hw).1, sleeps hj⟩
    · obtain ⟨y, hy, status⟩ := h.sleeps j hj
      exact ⟨y, by rwa [List.getElem?_set_ne here], status⟩
  complete hs j y hy hsleeps := by
    by_cases here : i = j
    · subst here
      rw [List.getElem?_set_self (List.getElem?_eq_some_iff.1 hw).1, Option.some.injEq] at hy
      subst hy
      exact complete hs hsleeps
    · rw [List.getElem?_set_ne here] at hy
      exact h.complete hs j y hy hsleeps

theorem Offers.set_same (same : x.slot.status = w.slot.status) :
    Offers stopping (workers.set i x) offered := by
  refine h.set hw ?_ ?_
  · intro hi
    obtain ⟨y, hy, status⟩ := h.sleeps i hi
    obtain rfl : w = y := Option.some.inj (hw.symm.trans hy)
    rwa [same]
  · intro hs sleeps
    exact h.complete hs i w hw (by rwa [← same])

/-- A worker goes on offer. -/
theorem Offers.add (fresh : i ∉ offered) (sleeps : x.slot.status = .sleeping) :
    Offers stopping (workers.set i x) (i :: offered) where
  nodup := List.nodup_cons.2 ⟨fresh, h.nodup⟩
  sleeps j hj := by
    have hi := (List.getElem?_eq_some_iff.1 hw).1
    by_cases here : i = j
    · subst here
      exact ⟨x, List.getElem?_set_self hi, .inl sleeps⟩
    · obtain ⟨y, hy, status⟩ := h.sleeps j ((List.mem_cons.1 hj).resolve_left (Ne.symm here))
      exact ⟨y, by rwa [List.getElem?_set_ne here], status⟩
  complete hs j y hy hsleeps := by
    by_cases here : i = j
    · subst here
      exact List.mem_cons_self
    · rw [List.getElem?_set_ne here] at hy
      exact List.mem_cons_of_mem _ (h.complete hs j y hy hsleeps)

/-- A worker goes off offer. -/
theorem Offers.take {rest : List Nat} (split : offered ~ i :: rest)
    (awake : x.slot.status ≠ .sleeping) : Offers stopping (workers.set i x) rest := by
  have h' := h.perm split.symm
  obtain ⟨fresh, nodup⟩ := List.nodup_cons.1 h'.nodup
  refine ⟨nodup, ?_, ?_⟩
  · intro j hj
    obtain ⟨y, hy, status⟩ := h'.sleeps j (List.mem_cons_of_mem _ hj)
    have ne : i ≠ j := fun here => fresh (here ▸ hj)
    exact ⟨y, by rwa [List.getElem?_set_ne ne], status⟩
  · intro hs j y hy hsleeps
    by_cases here : i = j
    · subst here
      rw [List.getElem?_set_self (List.getElem?_eq_some_iff.1 hw).1, Option.some.injEq] at hy
      subst hy
      exact absurd hsleeps awake
    · rw [List.getElem?_set_ne here] at hy
      have listed := h'.complete hs j y hy hsleeps
      exact (List.mem_cons.1 listed).resolve_left (Ne.symm here)

end Offers

theorem Undisturbed.offers (hu : Undisturbed p q) {stopping : Bool} {offered : List Nat}
    (h : Offers stopping p.workers offered) : Offers stopping q.workers offered := by
  refine h.undisturbed ?_ ?_
  · intro j x hx
    obtain ⟨w, hw, e⟩ := hu.before hx
    exact ⟨w, hw, by rcases e with rfl | rfl <;> simp⟩
  · intro j w hw
    obtain ⟨x, hx, e⟩ := hu.after hw
    exact ⟨x, hx, by rcases e with rfl | rfl <;> simp⟩

/-! ## The moves -/

section Moves

theorem offered_putCall {k : Nat} {c : Call} (hc : p.calls[k]? = some c) (c' : Call) :
    c.activity.held?.toList ++ (p.putCall k c').offered ~
      c'.activity.held?.toList ++ p.offered := by
  have same := (held_putCall hc c').append_left p.idle
  calc c.activity.held?.toList ++ (p.idle ++ (p.putCall k c').held)
      ~ p.idle ++ (c.activity.held?.toList ++ (p.putCall k c').held) :=
        List.perm_append_comm_assoc ..
    _ ~ p.idle ++ (c'.activity.held?.toList ++ p.held) := same
    _ ~ c'.activity.held?.toList ++ (p.idle ++ p.held) := List.perm_append_comm_assoc ..

theorem offered_putCall_of_none {k : Nat} {c c' : Call} (hc : p.calls[k]? = some c)
    (h : c.activity.held? = none) (h' : c'.activity.held? = none) :
    (p.putCall k c').offered ~ p.offered := by
  simpa [h, h'] using offered_putCall hc c'

theorem NudgeMove.offered_eq {n n' : Nudge} (m : NudgeMove p n n' q) : q.offered = p.offered := by
  rw [offered, held, m.calls_eq, m.idle_eq]
  rfl

theorem Sound.offers_worker (h : p.Sound) {i : Nat} {w : Worker} (hw : p.workers[i]? = some w)
    (m : WorkerMove p log i w q) : Offers q.control.isStopping q.workers q.offered := by
  have allows := (h.slots i w hw).allows
  have back : (p.idle ++ [i]) ++ p.held ~ i :: p.offered := by
    rw [List.append_assoc]
    exact List.perm_middle
  cases m with
  | attach hphase =>
    rw [hphase] at allows
    have fresh := h.offers.not_mem hw (by simp [allows.1]) (by simp [allows.1])
    exact (h.offers.add hw fresh rfl).perm back
  | rest hphase =>
    rw [hphase] at allows
    have fresh := h.offers.not_mem hw (by simp [allows.1]) (by simp [allows.1])
    exact (h.offers.add hw fresh rfl).perm back
  | detach hphase =>
    have stops := (h.slots i w hw).stops hphase
    exact h.offers.set hw (fun _ => .inr ⟨stops, rfl⟩) (fun runs => by simp [stops] at runs)
  | take hphase hcell =>
    rw [hphase] at allows
    have status : w.slot.status = .wakeRequested := by
      rcases allows with ⟨-, empty⟩ | ⟨status, -⟩
      · simp [hcell] at empty
      · exact status
    have absent := h.offers.not_mem hw (by simp [status]) (by simp [status])
    exact h.offers.set hw (fun listed => absurd listed absent) (by simp)
  | start hphase =>
    rw [hphase] at allows
    have absent := h.offers.not_mem hw (by simp [allows.1]) (by simp [allows.1])
    exact h.offers.set hw (fun listed => absurd listed absent) (by simp)
  | announce | leave | wait | work | report => exact h.offers.set_same hw rfl

theorem Sound.offers_submission (h : p.Sound) {k job : Nat} {c : Call} {s s' : Submission}
    (hc : p.calls[k]? = some c) (hs : c.activity = .submitting job s)
    (m : SubmissionMove p log job s s' q) :
    Offers q.control.isStopping q.workers
      (q.putCall k { c with activity := .submitting job s' }).offered := by
  cases m with
  | @pop waited i idle hidle =>
    have moved := offered_putCall (p := { p with idle }) hc
      { c with activity := .submitting job (.holding i) }
    rw [hs] at moved
    have front : p.offered = i :: { p with idle }.offered := by
      rw [offered, hidle]
      rfl
    exact h.offers.perm (moved.trans (.of_eq front.symm))
  | @giveBack i hstop =>
    have moved := offered_putCall (p := { p with idle := p.idle ++ [i] }) hc
      { c with activity := .submitting job .refused }
    rw [hs] at moved
    have back : (p.idle ++ [i]) ++ p.held ~ i :: p.offered := by
      rw [List.append_assoc]
      exact List.perm_middle
    exact h.offers.perm (moved.trans back).cons_inv
  | @install i w hw hstop hsleeps =>
    have moved := offered_putCall (p := p) hc
      { c with activity := .submitting job (.nudging i (.looking i)) }
    rw [hs] at moved
    exact h.offers.take hw moved.symm (by simp)
  | @nudge i n n' q m =>
    have moved : (q.putCall k { c with activity := .submitting job (.afterNudge i n') }).offered ~
        q.offered := by
      refine offered_putCall_of_none (by rwa [m.calls_eq]) (by rw [hs]; rfl) ?_
      cases n' <;> rfl
    rw [m.control_eq]
    exact (m.undisturbed.offers h.offers).perm (moved.trans (.of_eq m.offered_eq))
  | @full waited hidle =>
    refine h.offers.perm (offered_putCall_of_none hc (by rw [hs]; rfl) ?_)
    cases waited <;> rfl
  | @stay s hover =>
    have none : (Activity.submitting job s).held? = none := by
      cases s <;> first | rfl | cases hover
    exact h.offers.perm (offered_putCall_of_none hc (by rw [hs]; exact none) none)
  | refuse | enter | count | retry =>
    exact h.offers.perm (offered_putCall_of_none hc (by rw [hs]; rfl) rfl)

/-- A reaper's move; while it empties the queue, the pool stops. -/
theorem Sound.offers_reaping (h : p.Sound) {r r' : Reaping} (hr : r ∈ p.reapers)
    (m : ReapingMove p log r r' q) : Offers q.control.isStopping q.workers q.offered := by
  cases m with
  | @drain i joined idle hidle =>
    obtain ⟨⟨hstop, -⟩, -⟩ := h.roles.fits _ hr
    have front : p.offered = i :: { p with idle }.offered := by
      rw [offered, hidle]
      rfl
    exact h.offers.drop hstop front
  | @nudge i n n' q m =>
    rw [m.control_eq, m.offered_eq]
    exact m.undisturbed.offers h.offers
  | publish =>
    have same : p.notifyReaped.offered = p.offered :=
      congrArg (p.idle ++ ·) (held_notifyReaped p)
    exact h.offers.perm (.of_eq same)
  | stop => exact h.offers.stop fun _ => p.control.isStopping_requestStop
  | win | lose => exact h.offers.stop (by simp)
  | mark => exact h.offers.stop (by simp)
  | cancel | yield => exact h.offers.stop fun hs => p.control.isStopping_yieldReaping.trans hs
  | _ => exact h.offers

/-- A move in making the pool; the pool does not stop before its maker is through. -/
theorem Sound.offers_creation (h : p.Sound) (m : CreationMove p log q) :
    Offers q.control.isStopping q.workers q.offered := by
  have runs (hs : p.creation.isSettled = false) : p.control.isStopping = false := by
    by_contra stops
    simp [h.ready.settled (by simpa using stops)] at hs
  have absent {i : Nat} {w : Worker} (hw : p.workers[i]? = some w)
      (hs : p.creation.isSettled = false) (status : w.slot.status ≠ .sleeping) :
      i ∉ p.offered := by
    intro hi
    obtain ⟨y, hy, told⟩ := h.offers.sleeps i hi
    obtain rfl : w = y := Option.some.inj (hw.symm.trans hy)
    rcases told with told | ⟨stops, -⟩
    · exact status told
    · simp [runs hs] at stops
  cases m with
  | @prepare i w hcreation hw =>
    have status :=
      (h.making.unborn_of .notRunning hw (by simp [hcreation, Creation.unborn])).2
    have off := absent hw (by rw [hcreation]; rfl) (by simp [status])
    exact h.offers.set hw (fun listed => absurd listed off) (by simp)
  | spawn hcreation hw => exact h.offers.set_same hw rfl
  | @undo i w reason hcreation hw =>
    have status :=
      (h.making.unborn_of .starting hw (by simp [hcreation, Creation.unborn])).2
    have off := absent hw (by rw [hcreation]; rfl) (by simp [status])
    exact h.offers.set hw (fun listed => absurd listed off) (by simp)
  | @rollBack i reason r r' q hcreation m =>
    have member : r ∈ p.reapers := List.mem_append_left _ (by simp [hcreation, Creation.reaping?])
    exact (h.offers_reaping member m :)
  | @drop i reason r r' q hcreation m =>
    have member : r ∈ p.reapers := List.mem_append_left _ (by simp [hcreation, Creation.reaping?])
    exact (h.offers_reaping member m :)
  | _ => exact h.offers

theorem Sound.offers_move (h : p.Sound) {a : Action} (m : Move p log a q) :
    Offers q.control.isStopping q.workers q.offered := by
  cases m with
  | stay | release => exact h.offers
  | worker hw m => exact h.offers_worker hw m
  | @submission k job c s s' q hc hs m =>
    have kept := h.offers_submission hc hs m
    exact kept
  | @reaping k c r r' q hc hs m =>
    have member : r ∈ p.reapers := List.mem_append_right _ (mem_callers.2 ⟨k, c, hc, hs⟩)
    have kept := h.offers_reaping member m
    exact kept.perm (offered_putCall_of_none (m.own_call hc hs) (by rw [hs]; rfl) rfl)
  | @nudging k c n n' q hc hs m =>
    have kept : Offers q.control.isStopping q.workers q.offered := by
      rw [m.control_eq, m.offered_eq]
      exact m.undisturbed.offers h.offers
    exact kept.perm (offered_putCall_of_none (by rwa [m.calls_eq]) (by rw [hs]; rfl) rfl)
  | creation m => exact h.offers_creation m
  | @begin thread request hr =>
    have same (activity : Activity) (none : activity.held? = none) :
        (p.addCall thread activity).offered = p.offered := by
      rw [offered, held, filterMap_addCall, none, Option.toList_none, List.append_nil]
      rfl
    cases request with
    | submit ending gated =>
      exact h.offers.perm (.of_eq (same (.submitting p.jobs.size (.arriving false)) rfl))
    | reap => exact h.offers.perm (.of_eq (same (.reaping .arriving) rfl))
    | wake index => exact h.offers.perm (.of_eq (same (.nudging (.looking index)) rfl))
  | @rouse i => exact (Undisturbed.notify p i).offers h.offers
  | rouseReapers =>
    have same : p.notifyReaped.offered = p.offered :=
      congrArg (p.idle ++ ·) (held_notifyReaped p)
    exact h.offers.perm (.of_eq same)

end Moves

end Interlock.Pool
