import Interlock.Proofs.Pool.Execution

/-!
# The parties of a teardown

Whoever makes the pool may have to stop and join its workers, and so may every caller.  `ReaperMove`
is what a move means for these parties and for the workers' threads: a thread is started, its
handle is kept, a party goes on in reaping, or nothing of the kind.
-/

namespace Interlock.Pool

variable {p q : Pool} {log : Array (Thread × Log.Line)}

/-! ## Parties -/

/-- Who may reap: the maker of the pool, while he undoes his work, and the callers. -/
inductive Party where
  | maker
  | caller (call : Nat)
  deriving DecidableEq, Repr, Inhabited

/-- Where a party stands, if it reaps. -/
def standing (p : Pool) : Party → Option Reaping
  | .maker => p.creation.reaping?
  | .caller k => (p.calls[k]?).bind (·.activity.reaping?)

/-- Whose step an action is. -/
def Action.party? : Action → Option Party
  | .call k => some (.caller k)
  | .creation => some .maker
  | _ => none

/-- A caller stands in the teardown that his call is at. -/
theorem standing_caller {k : Nat} {r : Reaping} :
    p.standing (.caller k) = some r ↔ ∃ c, p.calls[k]? = some c ∧ c.activity = .reaping r := by
  simp only [standing, Option.bind_eq_some_iff]
  refine exists_congr fun c => and_congr_right fun _ => ?_
  cases c.activity <;> simp [Activity.reaping?]

/-- A teardown is under way if somebody stands in it. -/
theorem mem_reapers {r : Reaping} : r ∈ p.reapers ↔ ∃ who, p.standing who = some r := by
  simp only [reapers, List.mem_append, Option.mem_toList]
  constructor
  · rintro (maker | caller)
    · exact ⟨.maker, maker⟩
    · obtain ⟨k, call⟩ := mem_callers.1 caller
      exact ⟨.caller k, standing_caller.2 call⟩
  · rintro ⟨who, hr⟩
    cases who with
    | maker => exact .inl hr
    | caller k => exact .inr (mem_callers.2 ⟨k, standing_caller.1 hr⟩)

theorem Sound.fits_of_standing (h : p.Sound) {who : Party} {r : Reaping}
    (hr : p.standing who = some r) : r.Fits p.control p.handles :=
  h.roles.fits r (mem_reapers.2 ⟨who, hr⟩)

/-- Nobody reaps before the maker of the pool is through. -/
theorem Sound.settled_of_standing (h : p.Sound) {who : Party} {r : Reaping}
    (hr : p.standing who = some r) : p.creation.isSettled = true := by
  cases who with
  | maker =>
    have maker : p.creation.reaping? = some r := hr
    cases hc : p.creation <;> rw [hc] at maker <;> first | rfl | cases maker
  | caller k =>
    obtain ⟨c, hc, -⟩ := standing_caller.1 hr
    rw [h.ready.called k c hc]
    rfl

/-- At most one party has the reaper's role. -/
theorem Sound.role_unique (h : p.Sound) {who who' : Party} {r r' : Reaping}
    (hr : p.standing who = some r) (hr' : p.standing who' = some r') (holds : r.hasRole = true)
    (holds' : r'.hasRole = true) : who = who' := by
  have atMost : p.reapers.countP (·.hasRole) ≤ 1 := by
    rw [h.roles.role]
    exact Bool.toNat_le _
  have apart {k : Nat} {c : Call} (hc : p.calls[k]? = some c) : p.creation.reaping? = none := by
    rw [h.ready.called k c hc]
    rfl
  cases who with
  | maker =>
    cases who' with
    | maker => rfl
    | caller k =>
      obtain ⟨c, hc, -⟩ := standing_caller.1 hr'
      rw [standing, apart hc] at hr
      cases hr
  | caller k =>
    obtain ⟨c, hc, hreaping⟩ := standing_caller.1 hr
    cases who' with
    | maker =>
      rw [standing, apart hc] at hr'
      cases hr'
    | caller m =>
      obtain ⟨d, hd, hreaping'⟩ := standing_caller.1 hr'
      by_contra ne
      have ne : m ≠ k := fun e => ne (by rw [e])
      -- the first is taken out of the list of callers; the second is still there
      have out := callers_putCall hc { c with activity := .nudging (.done false) }
      rw [hreaping] at out
      have still : r' ∈ (p.putCall k { c with activity := .nudging (.done false) }).callers :=
        mem_callers.2 ⟨m, d, by rwa [getElem?_putCall_of_ne ne], hreaping'⟩
      have two : 0 < List.countP (·.hasRole)
          (p.putCall k { c with activity := .nudging (.done false) }).callers :=
        List.countP_pos_iff.2 ⟨r', still, holds'⟩
      have count := out.countP_eq (·.hasRole)
      rw [reapers_of_ready (h.ready.called k c hc)] at atMost
      simp only [Activity.reaping?, Option.toList_some, List.cons_append, List.nil_append,
        Option.toList_none, List.countP_cons, holds, if_true] at count
      omega

/-! ## Threads that are started and end -/

/-- Between two states no thread was started, and every thread that had ended still has. -/
structure Endures (p q : Pool) : Prop where
  size : q.size = p.size
  phases : ∀ (i : Nat) (w : Worker), p.workers[i]? = some w → ∃ x, q.workers[i]? = some x ∧
    (x.phase = .unborn ↔ w.phase = .unborn) ∧
    ∀ payload, w.ended? = some payload → x.ended? = some payload

theorem Endures.of_eq (h : q.workers = p.workers) : Endures p q :=
  ⟨congrArg List.length h, fun i w hw => ⟨w, by rwa [h], Iff.rfl, fun _ => id⟩⟩

/-- A worker after a move was there before, born or not as it is now. -/
theorem Endures.before (h : Endures p q) {i : Nat} {x : Worker} (hx : q.workers[i]? = some x) :
    ∃ w, p.workers[i]? = some w ∧ (x.phase = .unborn ↔ w.phase = .unborn) := by
  have inside : i < p.workers.length := by
    have inside := (List.getElem?_eq_some_iff.1 hx).1
    have same := h.size
    simp only [Pool.size] at same
    omega
  have hw : p.workers[i]? = some p.workers[i] := List.getElem?_eq_getElem inside
  obtain ⟨y, hy, same, -⟩ := h.phases i _ hw
  obtain rfl : x = y := Option.some.inj (hx.symm.trans hy)
  exact ⟨_, hw, same⟩

/-- Where nobody is disturbed, all endures. -/
theorem Undisturbed.endures (h : Undisturbed p q) : Endures p q := by
  refine ⟨h.size_eq, fun i w hw => ?_⟩
  obtain ⟨x, hx, e⟩ := h.after hw
  refine ⟨x, hx, ?_⟩
  rcases e with rfl | rfl
  · exact ⟨Iff.rfl, fun _ => id⟩
  · exact ⟨notified_eq_unborn w, fun payload ended => (ended?_notified w).trans ended⟩

theorem Endures.put {i : Nat} {w x : Worker} (hw : p.workers[i]? = some w)
    (hq : q.workers = p.workers.set i x) (hborn : x.phase = .unborn ↔ w.phase = .unborn)
    (hended : ∀ payload, w.ended? = some payload → x.ended? = some payload) : Endures p q := by
  refine ⟨(congrArg List.length hq).trans List.length_set, fun j y hy => ?_⟩
  by_cases own : i = j
  · subst own
    obtain rfl : w = y := Option.some.inj (hw.symm.trans hy)
    exact ⟨x, workers_set_self hw hq, hborn, hended⟩
  · exact ⟨y, by rwa [workers_set_of_ne hq own], Iff.rfl, fun _ => id⟩

/-- The step of a worker brings none to life and undoes no end. -/
theorem WorkerMove.endures {i : Nat} {w : Worker} (hw : p.workers[i]? = some w)
    (m : WorkerMove p log i w q) : Endures p q := by
  obtain ⟨x, hq, born, born', -⟩ := m.frame
  refine .put hw hq (by simp [born, born']) ?_
  intro payload ended
  rw [m.ended?_eq_none] at ended
  cases ended

/-! ## What a move means for the reapers -/

/-- A party's place, for the others: it stays, or is woken. -/
def Stays (p q : Pool) (who : Party) : Prop :=
  q.standing who = p.standing who ∨ q.standing who = (p.standing who).map Reaping.roused

section Stays

variable {who : Party} {r r' : Reaping}

/-- Only a reaper that waits for another one is disturbed. -/
theorem Stays.standing_eq (h : Stays p q who) (hr : p.standing who = some r)
    (awake : r.roused = r) : q.standing who = some r := by
  rcases h with same | woken
  · rw [same, hr]
  · rw [woken, hr, Option.map_some, awake]

/-- A party that stays stands where it stood, but perhaps roused. -/
theorem Stays.before (h : Stays p q who) (hr : q.standing who = some r') :
    ∃ r, p.standing who = some r ∧ (r' = r ∨ r' = r.roused) := by
  rcases h with same | woken
  · exact ⟨r', same ▸ hr, .inl rfl⟩
  · rw [woken, Option.map_eq_some_iff] at hr
    obtain ⟨r, hr, rfl⟩ := hr
    exact ⟨r, hr, .inr rfl⟩

/-- A reaper stands where he has gone, unless he is the maker of the pool and begins anew. -/
theorem standing_of_own (own : r ≠ .returned → q.standing who = some r)
    (gone : r = .returned → q.standing who = some .returned ∨ who = .maker ∧
      ∀ r'', q.standing who = some r'' → r'' = .arriving)
    (hr : q.standing who = some r') : r' = r ∨ r' = .arriving := by
  by_cases finished : r = .returned
  · rcases gone finished with returned | ⟨-, arriving⟩
    · exact .inl ((Option.some.inj (hr.symm.trans returned)).trans finished.symm)
    · exact .inr (arriving r' hr)
  · exact .inl (Option.some.inj (hr.symm.trans (own finished)))

end Stays

/-- A move, as far as the reapers and the workers' threads are concerned. -/
inductive ReaperMove (p : Pool) (a : Action) (q : Pool) : Prop
  | quiet (hu : Endures p q) (hcontrol : q.control = p.control) (hhandles : q.handles = p.handles)
      (hstoring : ∀ i, q.creation = .storing i ↔ p.creation = .storing i)
      (others : ∀ who, Stays p q who ∨
        p.standing who = none ∧ q.standing who = some .arriving)
  /-- A thread is started. -/
  | spawn (i : Nat) (w x : Worker) (hp : p.creation = .spawning i) (hq : q.creation = .storing i)
      (hw : p.workers[i]? = some w) (hunborn : w.phase = .unborn) (hborn : x.phase ≠ .unborn)
      (hworkers : q.workers = p.workers.set i x) (hcontrol : q.control = p.control)
      (hhandles : q.handles = p.handles) (others : ∀ who, Stays p q who)
  /-- Its handle is kept. -/
  | store (i : Nat) (hp : p.creation = .storing i) (hq : ∀ j, q.creation ≠ .storing j)
      (hworkers : q.workers = p.workers) (hcontrol : q.control = p.control)
      (hhandles : q.handles = p.handles ++ [i]) (others : ∀ who, Stays p q who)
  /-- A reaper goes on. -/
  | reap (log : Array (Thread × Log.Line)) (who : Party) (r r' : Reaping) (s : Pool)
      (ha : a.party? = some who) (hr : p.standing who = some r) (m : ReapingMove p log r r' s)
      (hworkers : q.workers = s.workers) (hcontrol : q.control = s.control)
      (hhandles : q.handles = s.handles) (hstoring : ∀ i, q.creation ≠ .storing i)
      (own : r' ≠ .returned → q.standing who = some r')
      (gone : r' = .returned → q.standing who = some .returned ∨ who = .maker ∧
        ∀ r'', q.standing who = some r'' → r'' = .arriving)
      (others : ∀ who', who' ≠ who → Stays p q who')

/-- A party stays where calls and creation stay. -/
theorem Stays.of_eq {who : Party} (hcalls : q.calls = p.calls)
    (hcreation : q.creation = p.creation ∨ ∃ i, q.creation = p.creation.roused i) :
    Stays p q who := by
  refine .inl ?_
  cases who with
  | maker =>
    show q.creation.reaping? = p.creation.reaping?
    rcases hcreation with e | ⟨i, e⟩ <;> simp [e]
  | caller k => rw [standing, standing, hcalls]

theorem storing_roused {creation : Creation} {i j : Nat} :
    creation.roused i = .storing j ↔ creation = .storing j := by
  unfold Creation.roused
  split
  · next h => simp [h]
  · rfl

theorem storing_iff (hcreation : q.creation = p.creation ∨ ∃ i, q.creation = p.creation.roused i)
    (j : Nat) : q.creation = .storing j ↔ p.creation = .storing j := by
  rcases hcreation with e | ⟨i, e⟩
  · rw [e]
  · rw [e, storing_roused]

/-- When a call moves on, all other parties stay. -/
theorem stays_putCall {k : Nat} {c : Call} (hcalls : q.calls = p.calls)
    (hcreation : q.creation = p.creation ∨ ∃ i, q.creation = p.creation.roused i) {who : Party}
    (ne : who ≠ .caller k) : Stays p (q.putCall k c) who := by
  cases who with
  | maker => exact (Stays.of_eq (q := q) hcalls hcreation : Stays p q .maker)
  | caller m =>
    refine .inl ?_
    have other : m ≠ k := fun e => ne (by rw [e])
    rw [standing, standing, getElem?_putCall_of_ne other, hcalls]

theorem standing_putCall {k : Nat} {c c' : Call} (hc : p.calls[k]? = some c) :
    (p.putCall k c').standing (.caller k) = c'.activity.reaping? := by
  rw [standing, getElem?_putCall_self hc]
  rfl

theorem standing_notifyReaped (p : Pool) (who : Party) : Stays p p.notifyReaped who := by
  cases who with
  | maker => exact .inl rfl
  | caller k =>
    refine .inr ?_
    simp only [standing, getElem?_notifyReaped]
    cases p.calls[k]? with
    | none => rfl
    | some c => exact c.reaping?_roused

/-- A reaper that goes on does not disturb the others. -/
theorem ReapingMove.stays {r r' : Reaping} (m : ReapingMove p log r r' q) (who : Party) :
    Stays p q who := by
  cases m with
  | publish => exact standing_notifyReaped p who
  | nudge m => exact .of_eq m.calls_eq m.creation
  | _ => exact .inl rfl

/-- A move of the creation is one of its teardown, or concerns no teardown. -/
theorem Sound.reaperMove_creation (h : p.Sound) (m : CreationMove p log q) :
    ReaperMove p .creation q := by
  -- the maker's own steps, before he has to undo his work
  have makes (hu : Endures p q) (hcontrol : q.control = p.control)
      (hhandles : q.handles = p.handles)
      (hp : ∀ i, p.creation ≠ .storing i) (hq : ∀ i, q.creation ≠ .storing i)
      (hcalls : q.calls = p.calls) (hnone : p.creation.reaping? = none)
      (hnew : q.creation.reaping? = none ∨ q.creation.reaping? = some .arriving) :
      ReaperMove p .creation q := by
    refine .quiet hu hcontrol hhandles (fun i => iff_of_false (hq i) (hp i)) fun who => ?_
    cases who with
    | maker =>
      rcases hnew with none | arriving
      · exact .inl (.inl (none.trans hnone.symm))
      · exact .inr ⟨hnone, arriving⟩
    | caller k =>
      refine .inl (.inl ?_)
      rw [standing, standing, hcalls]
  -- the maker's steps in reaping
  have reaps {r r' : Reaping} {s : Pool} {creation : Creation} (hr : p.creation.reaping? = some r)
      (m : ReapingMove p log r r' s) (hstoring : ∀ i, creation ≠ .storing i)
      (own : r' ≠ .returned → creation.reaping? = some r')
      (gone : r' = .returned → ∀ r'', creation.reaping? = some r'' → r'' = .arriving) :
      ReaperMove p .creation { s with creation } := by
    refine .reap log .maker r r' s rfl hr m rfl rfl rfl hstoring own
      (fun e => .inr ⟨rfl, gone e⟩) fun who' ne => ?_
    cases who' with
    | maker => exact absurd rfl ne
    | caller k => exact m.stays (.caller k)
  cases m with
  | @prepare i w hcreation hw | @undo i w reason hcreation hw =>
    exact makes (.put hw rfl Iff.rfl fun _ => id) rfl rfl (by simp [hcreation]) (by simp) rfl
      (by rw [hcreation]; rfl) (.inl rfl)
  | @spawn i w exit hcreation hw hs =>
    have unborn := (h.making.unborn_of .starting hw (by simp [hcreation, Creation.unborn])).1
    refine .spawn i w _ hcreation rfl hw unborn (by simp) rfl rfl rfl fun who => .inl ?_
    cases who with
    | maker =>
      show none = p.creation.reaping?
      rw [hcreation]
      rfl
    | caller k => rfl
  | refuse hcreation | sleep hcreation | announce hcreation =>
    exact makes (.of_eq rfl) rfl rfl (by simp [hcreation]) (by simp) rfl
      (by rw [hcreation]; rfl) (.inl rfl)
  | note hcreation =>
    exact makes (.of_eq rfl) rfl rfl (by simp [hcreation]) (by simp) rfl
      (by rw [hcreation]; rfl) (.inr rfl)
  | @store i hcreation =>
    have next (size j : Nat) : Creation.prepareFrom size (i + 1) ≠ .storing j ∧
        (Creation.prepareFrom size (i + 1)).reaping? = none := by
      unfold Creation.prepareFrom
      split
      · exact ⟨by simp, rfl⟩
      · split <;> exact ⟨by simp, rfl⟩
    refine .store i hcreation (fun j => (next p.size j).1) rfl rfl rfl fun who => .inl ?_
    cases who with
    | maker =>
      show (Creation.prepareFrom p.size (i + 1)).reaping? = p.creation.reaping?
      rw [(next p.size 0).2, hcreation]
      rfl
    | caller k => rfl
  | @started i hcreation hs =>
    have next (size j : Nat) : Creation.awaitFrom size (i + 1) ≠ .storing j ∧
        (Creation.awaitFrom size (i + 1)).reaping? = none := by
      unfold Creation.awaitFrom
      split <;> exact ⟨by simp, rfl⟩
    exact makes (.of_eq rfl) rfl rfl (by simp [hcreation]) (fun j => (next p.size j).1) rfl
      (by rw [hcreation]; rfl) (.inl (next p.size 0).2)
  | @rollBack i reason r r' q hcreation m =>
    refine reaps (by rw [hcreation]; rfl) m ?_ ?_ ?_
    · intro j
      cases r' <;> simp [Creation.afterRollback]
    · intro more
      cases r' <;> first | rfl | exact absurd rfl more
    · rintro rfl r'' hr''
      exact (Option.some.inj hr'').symm
  | @drop i reason r r' q hcreation m =>
    refine reaps (by rw [hcreation]; rfl) m ?_ ?_ ?_
    · intro j
      cases r' <;> simp [Creation.afterDrop]
    · intro more
      cases r' <;> first | rfl | exact absurd rfl more
    · rintro rfl r'' hr''
      cases hr''

/-- What each move of a sound pool means for the reapers. -/
theorem Sound.reaperMove (h : p.Sound) {a : Action} (m : Move p log a q) : ReaperMove p a q := by
  -- a call that does not reap goes on
  have other {s : Pool} {k : Nat} {c : Call} {activity : Activity} (hc : p.calls[k]? = some c)
      (hs : c.activity.reaping? = none) (hs' : activity.reaping? = none) (hu : Endures p s)
      (hcalls : s.calls = p.calls)
      (hcreation : s.creation = p.creation ∨ ∃ i, s.creation = p.creation.roused i)
      (hcontrol : s.control = p.control) (hhandles : s.handles = p.handles) :
      ReaperMove p (.call k) (s.putCall k { c with activity }) := by
    refine .quiet ⟨hu.size, hu.phases⟩ hcontrol hhandles (storing_iff hcreation) fun who => .inl ?_
    by_cases own : who = .caller k
    · subst own
      refine .inl ?_
      rw [standing_putCall (by rwa [hcalls]), standing, hc]
      exact hs'.trans hs.symm
    · exact stays_putCall hcalls hcreation own
  cases m with
  | stay | release =>
    exact .quiet (.of_eq rfl) rfl rfl (fun _ => Iff.rfl) fun _ => .inl (.inl rfl)
  | @worker i w q hw m =>
    obtain ⟨-, -, -, -, hcreation⟩ := m.frame
    have hcreation := hcreation.imp id fun e => (⟨i, e⟩ : ∃ j, q.creation = p.creation.roused j)
    exact .quiet (m.endures hw) m.control_eq m.handles_eq (storing_iff hcreation) fun who =>
      .inl (.of_eq m.calls_eq hcreation)
  | submission hc hs m =>
    refine other hc (by rw [hs]; rfl) rfl ?_ m.calls_eq m.creation m.control_eq m.handles_eq
    cases m with
    | install hw => exact .put hw rfl Iff.rfl fun _ => id
    | nudge m => exact m.undisturbed.endures
    | _ => exact .of_eq rfl
  | @reaping k c r r' s hc hs m =>
    have ready := h.ready.called k c hc
    have hr : p.standing (.caller k) = some r := standing_caller.2 ⟨c, hc, hs⟩
    have own : (s.putCall k { c with activity := .reaping r' }).standing (.caller k) = some r' :=
      standing_putCall (m.own_call hc hs)
    refine .reap log (.caller k) r r' s rfl hr m rfl rfl rfl ?_ (fun _ => own)
      (fun e => .inl (e ▸ own)) fun who ne => ?_
    · intro i
      show s.creation ≠ .storing i
      rw [Pool.creation_ready ready m.creation]
      simp
    · have stays := m.stays who
      cases who with
      | maker => exact stays
      | caller j =>
        have other : j ≠ k := fun e => ne (by rw [e])
        simp only [Stays, standing, getElem?_putCall_of_ne other] at stays ⊢
        exact stays
  | nudging hc hs m =>
    exact other hc (by rw [hs]; rfl) rfl m.undisturbed.endures m.calls_eq m.creation m.control_eq
      m.handles_eq
  | creation m => exact h.reaperMove_creation m
  | @begin thread request hr =>
    have begun (activity : Activity) {s : Pool}
        (hcalls : s.calls = (p.addCall thread activity).calls)
        (hnew : activity.reaping? = none ∨ activity.reaping? = some .arriving)
        (hworkers : s.workers = p.workers) (hcreation : s.creation = p.creation)
        (hcontrol : s.control = p.control) (hhandles : s.handles = p.handles) :
        ReaperMove p (.begin thread request) s := by
      refine .quiet (.of_eq hworkers) hcontrol hhandles (storing_iff (.inl hcreation)) fun who => ?_
      cases who with
      | maker => exact .inl (.inl (congrArg Creation.reaping? hcreation))
      | caller k =>
        simp only [Stays, standing, hcalls, addCall, Array.getElem?_push]
        by_cases last : k = p.calls.size
        · subst last
          rcases hnew with none | arriving
          · simp [none]
          · simp [arriving]
        · rw [if_neg last]
          exact .inl (.inl rfl)
    cases request with
    | submit ending gated =>
      exact begun (.submitting p.jobs.size (.arriving false)) rfl (.inl rfl) rfl rfl rfl rfl
    | reap => exact begun (.reaping .arriving) rfl (.inr rfl) rfl rfl rfl rfl
    | wake index => exact begun (.nudging (.looking index)) rfl (.inl rfl) rfl rfl rfl rfl
  | @rouse i =>
    exact .quiet (Undisturbed.notify p i).endures rfl rfl (storing_iff (.inr ⟨i, rfl⟩)) fun who =>
      .inl (.of_eq rfl (.inr ⟨i, rfl⟩))
  | rouseReapers =>
    exact .quiet (.of_eq rfl) rfl rfl (fun _ => Iff.rfl) fun who =>
      .inl (standing_notifyReaped p who)

end Interlock.Pool
