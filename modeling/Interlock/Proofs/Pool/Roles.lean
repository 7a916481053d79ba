import Interlock.Proofs.Pool.Ledger

/-!
# The reaper's role

One reaper at a time holds the role.  A reaper's move replaces it in the list of all reapers, and
what the others stand on survives (`Roles.move`): the flag that is published last is published by
the one with the role, and nobody without the role relies on its being clear.
-/

namespace Interlock.Pool

open scoped List

variable {p q : Pool} {log : Array (Thread × Log.Line)}

/-! ## One reaper -/

/-- What a reaper stands on survives when flags are set and handles are taken; that the workers
have not been joined is of concern to the holder of the role only. -/
theorem Reaping.Fits.mono {r : Reaping} {control control' : Control} {handles handles' : List Nat}
    (h : r.Fits control handles)
    (hstop : control.isStopping = true → control'.isStopping = true)
    (hreaped : control.isReaped = true → control'.isReaped = true)
    (hrole : r.hasRole = true → control'.isReaped = control.isReaped)
    (hhandles : handles = [] → handles' = []) : r.Fits control' handles' := by
  cases r with
  | arriving | stopping => trivial
  | claiming | awaiting | asleep | rechecking => exact hstop h
  | broadcasting | collecting => exact ⟨hstop h.1, (hrole rfl).trans h.2⟩
  | nudging i n => exact ⟨⟨hstop h.1.1, (hrole rfl).trans h.1.2⟩, h.2⟩
  | joining | draining | marking | broken =>
    exact ⟨⟨hstop h.1.1, (hrole rfl).trans h.1.2⟩, hhandles h.2⟩
  | cancelling | yielding | publishing | reporting | returned => exact hreaped h

theorem hasRole_roused (r : Reaping) : r.roused.hasRole = r.hasRole := by
  cases r <;> rfl

theorem fits_roused {r : Reaping} {control : Control} {handles : List Nat} :
    r.roused.Fits control handles ↔ r.Fits control handles := by
  cases r <;> rfl

/-! ## All reapers -/

section Roles

variable {rs rs' : List Reaping} {r r' : Reaping}

/-- It does not matter in which order the teardowns are listed. -/
theorem Roles.perm (h : p.Roles rs) (same : rs' ~ rs) : p.Roles rs' where
  role := by rw [same.countP_eq, h.role]
  fits s hs := h.fits s (same.mem_iff.1 hs)
  stops := h.stops
  told := h.told

/-- Teardowns that are roused keep their roles. -/
theorem Roles.roused (h : p.Roles (rs ++ rs')) : p.Roles (rs ++ rs'.map Reaping.roused) where
  role := by
    have same : (rs'.map Reaping.roused).countP (·.hasRole) = rs'.countP (·.hasRole) := by
      rw [List.countP_map]
      exact List.countP_congr fun s _ => by simp [hasRole_roused]
    rw [List.countP_append, same, ← List.countP_append, h.role]
  fits s hs := by
    rcases List.mem_append.1 hs with hs | hs
    · exact h.fits s (List.mem_append_left _ hs)
    · obtain ⟨t, ht, rfl⟩ := List.mem_map.1 hs
      exact fits_roused.2 (h.fits t (List.mem_append_right _ ht))
  stops := h.stops
  told := h.told

/-- Roles depend on the control word, the handles and what was reaped only. -/
theorem Roles.congr (h : p.Roles rs) (hcontrol : q.control = p.control)
    (hhandles : q.handles = p.handles) (hreaped : q.reaped = p.reaped) : q.Roles rs where
  role := by rw [hcontrol, h.role]
  fits s hs := by
    rw [hcontrol, hhandles]
    exact h.fits s hs
  stops := by
    rw [hcontrol]
    exact h.stops
  told := by
    rw [hcontrol, hreaped]
    exact h.told

/-- Somebody comes to reap. -/
theorem Roles.arrive (h : p.Roles rs) : p.Roles (.arriving :: rs) where
  role := by
    rw [List.countP_cons_of_neg (by simp [Reaping.hasRole]), h.role]
  fits s hs := by
    rcases List.mem_cons.1 hs with rfl | hs
    · trivial
    · exact h.fits s hs
  stops := h.stops
  told := h.told

/-- Somebody without the role goes. -/
theorem Roles.depart (h : p.Roles (r :: rs)) (free : r.hasRole = false) : p.Roles rs where
  role := by
    rw [← h.role, List.countP_cons_of_neg (by simp [free])]
  fits s hs := h.fits s (List.mem_cons_of_mem _ hs)
  stops := h.stops
  told := h.told

/-- A teardown that moves keeps all roles if the flags agree with it afterwards. -/
theorem Roles.replace (h : p.Roles (r :: rs))
    (role : r'.hasRole.toNat + rs.countP (·.hasRole) = q.control.isReaping.toNat)
    (fits : r'.Fits q.control q.handles)
    (hstop : p.control.isStopping = true → q.control.isStopping = true)
    (hreaped : p.control.isReaped = true → q.control.isReaped = true)
    (hrole : ∀ s ∈ rs, s.hasRole = true → q.control.isReaped = p.control.isReaped)
    (hhandles : p.handles = [] → q.handles = [])
    (stops : q.control.isReaped = true → q.control.isStopping = true)
    (told : q.reaped = true → q.control.isReaped = true) : q.Roles (r' :: rs) where
  role := by
    rw [← role, List.countP_cons, Nat.add_comm]
    cases r'.hasRole <;> rfl
  fits s hs := by
    rcases List.mem_cons.1 hs with rfl | hs
    · exact fits
    · exact (h.fits s (List.mem_cons_of_mem _ hs)).mono hstop hreaped (hrole s hs) hhandles
  stops := stops
  told := told

theorem Roles.role_cons (h : p.Roles (r :: rs)) :
    r.hasRole.toNat + rs.countP (·.hasRole) = p.control.isReaping.toNat := by
  rw [← h.role, List.countP_cons, Nat.add_comm]
  cases r.hasRole <;> rfl

/-- Beside the holder of the role nobody has it. -/
theorem Roles.others (h : p.Roles (r :: rs)) (holds : r.hasRole = true) :
    rs.countP (·.hasRole) = 0 := by
  have role := h.role_cons
  have atMost := Bool.toNat_le p.control.isReaping
  rw [holds, Bool.toNat_true] at role
  omega

/-- A teardown that keeps its role and the flags keeps all roles. -/
theorem Roles.advance (h : p.Roles (r :: rs)) (hrole : r'.hasRole = r.hasRole)
    (fits : r'.Fits p.control q.handles) (hcontrol : q.control = p.control)
    (hhandles : p.handles = [] → q.handles = []) (hreaped : q.reaped = p.reaped) :
    q.Roles (r' :: rs) := by
  refine h.replace ?_ ?_ ?_ ?_ ?_ hhandles ?_ ?_
  · rw [hrole, hcontrol]
    exact h.role_cons
  · rwa [hcontrol]
  · rw [hcontrol]
    exact id
  · rw [hcontrol]
    exact id
  · intro _ _ _
    rw [hcontrol]
  · rw [hcontrol]
    exact h.stops
  · rw [hcontrol, hreaped]
    exact h.told

theorem fits_nudgeFrom {control : Control} {handles : List Nat} (size i : Nat)
    (h : control.isStopping = true ∧ control.isReaped = false) :
    (Reaping.nudgeFrom size i).Fits control handles := by
  unfold Reaping.nudgeFrom
  split
  · exact ⟨h, .inl rfl⟩
  · exact h

theorem hasRole_nudgeFrom (size i : Nat) : (Reaping.nudgeFrom size i).hasRole = true := by
  unfold Reaping.nudgeFrom
  split <;> rfl

theorem hasRole_afterNudge (size i : Nat) (n : Nudge) :
    (Reaping.afterNudge size i n).hasRole = true := by
  cases n with
  | done reached => exact hasRole_nudgeFrom _ _
  | looking | notifying => rfl

/-- Every step of a teardown keeps the roles. -/
theorem Roles.move (h : p.Roles (r :: rs)) (m : ReapingMove p log r r' q) : q.Roles (r' :: rs) := by
  have fits := h.fits r List.mem_cons_self
  have role := h.role_cons
  cases m with
  | known hreaped => exact h.advance rfl hreaped rfl id rfl
  | go hreaped => exact h.advance rfl trivial rfl id rfl
  | stop =>
    refine h.replace ?_ ?_ ?_ ?_ ?_ id ?_ ?_
    · simpa [Reaping.hasRole] using role
    · exact p.control.isStopping_requestStop
    · simp
    · simp
    · simp
    · simp
    · simpa using h.told
  | win hfree =>
    refine h.replace ?_ ?_ ?_ ?_ ?_ id ?_ ?_
    · show true.toNat + _ = p.control.beginReaping.2.isReaping.toNat
      rw [Control.isReaping_beginReaping]
      have none : false.toNat + rs.countP (·.hasRole) = p.control.isReaping.toNat := role
      rw [hfree, Bool.toNat_false] at none
      omega
    · simpa [Reaping.Fits] using fits
    · simp
    · simp
    · simp
    · simpa using h.stops
    · simpa using h.told
  | lose htaken =>
    refine h.replace ?_ ?_ ?_ ?_ ?_ id ?_ ?_
    · simpa [Reaping.hasRole, htaken] using role
    · simpa [Reaping.Fits] using fits
    · simp
    · simp
    · simp
    · simpa using h.stops
    · simpa using h.told
  | told htold => exact h.advance rfl (h.told htold) rfl id rfl
  | sleep => exact h.advance rfl fits rfl id rfl
  | late hreaped => exact h.advance rfl hreaped rfl id rfl
  | first hreaped => exact h.advance rfl ⟨fits, hreaped⟩ rfl id rfl
  | cancel =>
    have alone := h.others rfl
    refine h.replace ?_ ?_ ?_ ?_ ?_ id ?_ ?_
    · show false.toNat + _ = p.control.yieldReaping.2.isReaping.toNat
      rw [alone, Control.isReaping_yieldReaping, Nat.add_zero]
    · simpa [Reaping.Fits, Control.cancelReaping] using fits
    · simp [Control.cancelReaping]
    · simp [Control.cancelReaping]
    · simp [Control.cancelReaping]
    · simpa [Control.cancelReaping] using h.stops
    · simpa [Control.cancelReaping] using h.told
  | broadcast => exact h.advance (hasRole_nudgeFrom _ _) (fits_nudgeFrom _ _ fits) rfl id rfl
  | @nudge i n n' q m =>
    refine h.advance ?_ ?_ m.control_eq (fun none => by rw [m.handles_eq, none]) m.reaped_eq
    · exact hasRole_afterNudge _ _ _
    · cases m with
      | look =>
        obtain ⟨flags, here⟩ := fits
        refine ⟨flags, .inr ?_⟩
        simpa using here
      | miss | notify | stay => exact fits_nudgeFrom _ _ fits.1
  | collect => exact h.advance rfl ⟨fits, rfl⟩ rfl (fun _ => rfl) rfl
  | join | fall | joined | drain | drained => exact h.advance rfl fits rfl id rfl
  | mark =>
    have alone := h.others rfl
    refine h.replace ?_ ?_ ?_ ?_ ?_ id ?_ ?_
    · simpa [Reaping.hasRole] using role
    · exact p.control.isReaped_markReaped
    · simp
    · simp
    · intro s hs holds
      rw [List.countP_eq_zero] at alone
      exact absurd holds (alone s hs)
    · simpa using fits.1.1
    · simp
  | yield =>
    have alone := h.others rfl
    refine h.replace ?_ ?_ ?_ ?_ ?_ id ?_ ?_
    · show false.toNat + _ = p.control.yieldReaping.2.isReaping.toNat
      rw [alone, Control.isReaping_yieldReaping, Nat.add_zero]
    · simpa [Reaping.Fits] using fits
    · simp
    · simp
    · simp
    · simpa using h.stops
    · simpa using h.told
  | publish =>
    exact h.replace role fits id id (fun _ _ _ => rfl) id h.stops fun _ => fits
  | report => exact h.advance rfl fits rfl id rfl
  | stay => exact h.advance rfl fits rfl id rfl

end Roles

/-! ## All moves -/

section Moves

theorem reapers_of_ready (h : p.creation = .ready) : p.reapers = p.callers := by
  rw [reapers, h]
  rfl

/-- Before the pool is made nobody calls it. -/
theorem Ready.callers_eq_nil (h : p.Ready) (hready : p.creation ≠ .ready) : p.callers = [] := by
  rw [List.eq_nil_iff_forall_not_mem]
  intro r hr
  obtain ⟨k, c, hc, -⟩ := mem_callers.1 hr
  exact hready (h.called k c hc)

theorem reapers_congr (hcalls : q.calls = p.calls)
    (hcreation : q.creation = p.creation ∨ ∃ i, q.creation = p.creation.roused i) :
    q.reapers = p.reapers := by
  have maker : q.creation.reaping? = p.creation.reaping? := by
    rcases hcreation with e | ⟨i, e⟩ <;> simp [e]
  rw [reapers, reapers, callers, callers, maker, hcalls]

/-- What a reaper's move does to the calls of others. -/
theorem ReapingMove.callers {r r' : Reaping} (m : ReapingMove p log r r' q) :
    q.callers = p.callers ∨ r.roused = r ∧ q.callers = p.callers.map Reaping.roused := by
  cases m with
  | publish => exact .inr ⟨rfl, callers_notifyReaped p⟩
  | nudge m =>
    refine .inl ?_
    rw [Pool.callers, m.calls_eq]
    rfl
  | _ => exact .inl rfl

/-- A caller that reaps goes on; the others stay, or are woken. -/
theorem ReapingMove.exists_callers {r r' : Reaping} (m : ReapingMove p log r r' q) {k : Nat}
    {c : Call} (hc : p.calls[k]? = some c) (h : c.activity = .reaping r) :
    ∃ rs, p.callers ~ r :: rs ∧
      ((q.putCall k { c with activity := .reaping r' }).callers ~ r' :: rs ∨
        (q.putCall k { c with activity := .reaping r' }).callers ~
          r' :: rs.map Reaping.roused) := by
  have out := callers_putCall hc { c with activity := .nudging (.done false) }
  have step := callers_putCall (m.own_call hc h) { c with activity := .reaping r' }
  rw [h] at out step
  set rs := (p.putCall k { c with activity := .nudging (.done false) }).callers
  have before : p.callers ~ r :: rs := out.symm
  refine ⟨rs, before, ?_⟩
  rcases m.callers with same | ⟨own, woken⟩
  · rw [same] at step
    exact .inl ((List.perm_cons r).1 (step.trans ((before.cons r').trans (.swap ..))))
  · have others := before.map Reaping.roused
    rw [← woken, List.map_cons, own] at others
    exact .inr ((List.perm_cons r).1 (step.trans ((others.cons r').trans (.swap ..))))

/-- Roles stay right when a call tears down. -/
theorem Sound.roles_reaping (h : p.Sound) {k : Nat} {c : Call} {r r' : Reaping}
    (hc : p.calls[k]? = some c) (hs : c.activity = .reaping r) (m : ReapingMove p log r r' q) :
    (q.putCall k { c with activity := .reaping r' }).Roles
      (q.putCall k { c with activity := .reaping r' }).reapers := by
  have ready := h.ready.called k c hc
  have ready' : (q.putCall k { c with activity := .reaping r' }).creation = .ready :=
    creation_ready ready m.creation
  have roles := h.roles
  rw [reapers_of_ready ready] at roles
  rw [reapers_of_ready ready']
  obtain ⟨rs, before, after | after⟩ := m.exists_callers hc hs
  · have kept := (roles.perm before.symm).move m
    exact (kept.perm after).congr rfl rfl rfl
  · have kept : q.Roles ([r'] ++ rs) := (roles.perm before.symm).move m
    exact (kept.roused.perm after).congr rfl rfl rfl

/-- Roles stay right when the creation moves. -/
theorem Sound.roles_creation (h : p.Sound) (m : CreationMove p log q) : q.Roles q.reapers := by
  by_cases ready : p.creation = .ready
  · cases m <;> simp_all
  have alone := h.ready.callers_eq_nil ready
  have quiet (hcalls : q.calls = p.calls) : q.callers = [] := by
    rw [← alone, callers, callers, hcalls]
  -- whoever makes the pool is alone with it, and before he has to undo his work nobody reaps
  have nobody (hmaker : p.creation.reaping? = none) (hmaker' : q.creation.reaping? = none)
      (hcalls : q.calls = p.calls) (hcontrol : q.control = p.control)
      (hreaped : q.reaped = p.reaped) : q.Roles q.reapers := by
    have roles := h.roles
    rw [reapers, hmaker, alone] at roles
    rw [reapers, hmaker', quiet hcalls]
    refine ⟨?_, by simp, ?_, ?_⟩
    · rw [hcontrol]
      exact roles.role
    · rw [hcontrol]
      exact roles.stops
    · rw [hcontrol, hreaped]
      exact roles.told
  have maker {r r' : Reaping} {q : Pool} (hmaker : p.creation.reaping? = some r)
      (m : ReapingMove p log r r' q) : q.Roles [r'] ∧ q.callers = [] := by
    have roles := h.roles
    rw [reapers, hmaker, alone] at roles
    refine ⟨roles.move m, ?_⟩
    rcases m.callers with same | ⟨-, woken⟩
    · rw [same, alone]
    · rw [woken, alone]
      rfl
  cases m with
  | prepare hcreation | spawn hcreation | refuse hcreation | undo hcreation | sleep hcreation
  | announce hcreation =>
    exact nobody (by rw [hcreation]; rfl) rfl rfl rfl rfl
  | @store i hcreation =>
    refine nobody (by rw [hcreation]; rfl) ?_ rfl rfl rfl
    simp only [Creation.prepareFrom]
    split
    · rfl
    · split <;> rfl
  | @started i hcreation hs =>
    refine nobody (by rw [hcreation]; rfl) ?_ rfl rfl rfl
    simp only [Creation.awaitFrom]
    split <;> rfl
  | @note i reason hcreation =>
    have roles := h.roles
    rw [reapers, alone, show p.creation.reaping? = none by rw [hcreation]; rfl] at roles
    rw [reapers, quiet rfl]
    exact (roles.arrive).congr rfl rfl rfl
  | @rollBack i reason r r' q hcreation m =>
    obtain ⟨roles, idle⟩ := maker (by rw [hcreation]; rfl) m
    have roles : Roles { q with creation := .afterRollback i reason r' } [r'] :=
      roles.congr rfl rfl rfl
    show Roles _ ((Creation.afterRollback i reason r').reaping?.toList ++ q.callers)
    rw [idle, List.append_nil]
    cases r' with
    | returned => exact (roles.depart rfl).arrive
    | _ => exact roles
  | @drop i reason r r' q hcreation m =>
    obtain ⟨roles, idle⟩ := maker (by rw [hcreation]; rfl) m
    have roles : Roles { q with creation := .afterDrop i reason r' } [r'] :=
      roles.congr rfl rfl rfl
    show Roles _ ((Creation.afterDrop i reason r').reaping?.toList ++ q.callers)
    rw [idle, List.append_nil]
    cases r' with
    | returned => exact roles.depart rfl
    | _ => exact roles

/-- Every move keeps the roles. -/
theorem Sound.roles_move (h : p.Sound) {a : Action} (m : Move p log a q) : q.Roles q.reapers := by
  cases m with
  | stay | release => exact h.roles.congr rfl rfl rfl
  | @worker i w q hw m =>
    obtain ⟨-, -, -, -, hcreation⟩ := m.frame
    rw [reapers_congr m.calls_eq (hcreation.imp id fun e => ⟨i, e⟩)]
    exact h.roles.congr m.control_eq m.handles_eq m.reaped_eq
  | @submission k job c s s' q hc hs m =>
    have kept := h.roles.congr m.control_eq m.handles_eq m.reaped_eq
    rw [← reapers_congr m.calls_eq m.creation] at kept
    have still := reapers_putCall_of_none (by rwa [m.calls_eq])
      { c with activity := .submitting job s' } (by rw [hs]; rfl) rfl
    exact (kept.perm still).congr rfl rfl rfl
  | reaping hc hs m => exact h.roles_reaping hc hs m
  | @nudging k c n n' q hc hs m =>
    have kept := h.roles.congr m.control_eq m.handles_eq m.reaped_eq
    rw [← reapers_congr m.calls_eq m.creation] at kept
    have still := reapers_putCall_of_none (by rwa [m.calls_eq])
      { c with activity := .nudging n' } (by rw [hs]; rfl) rfl
    exact (kept.perm still).congr rfl rfl rfl
  | creation m => exact h.roles_creation m
  | @begin thread request hr =>
    have begun (activity : Activity) (q : Pool) (hready : q.creation = .ready)
        (hcalls : q.calls = (p.addCall thread activity).calls) :
        q.reapers = p.callers ++ activity.reaping?.toList := by
      rw [reapers_of_ready hready, callers, hcalls]
      exact filterMap_addCall _ p thread activity
    have roles := h.roles
    rw [reapers_of_ready hr] at roles
    cases request with
    | submit ending gated =>
      rw [begun (.submitting p.jobs.size (.arriving false))
        (p.beginCall thread (.submit ending gated)) hr rfl]
      exact (roles.perm (List.append_nil _ ▸ .refl _)).congr rfl rfl rfl
    | reap =>
      rw [begun (.reaping .arriving) (p.beginCall thread .reap) hr rfl]
      exact (roles.arrive.perm List.perm_append_comm).congr rfl rfl rfl
    | wake index =>
      rw [begun (.nudging (.looking index)) (p.beginCall thread (.wake index)) hr rfl]
      exact (roles.perm (List.append_nil _ ▸ .refl _)).congr rfl rfl rfl
  | @rouse i =>
    rw [reapers_congr (p := p) (q := p.notify i) rfl (.inr ⟨i, rfl⟩)]
    exact h.roles.congr rfl rfl rfl
  | rouseReapers =>
    have woken : p.notifyReaped.reapers =
        p.creation.reaping?.toList ++ p.callers.map Reaping.roused :=
      congrArg (p.creation.reaping?.toList ++ ·) (callers_notifyReaped p)
    rw [woken]
    exact h.roles.roused.congr rfl rfl rfl

end Moves

end Interlock.Pool
