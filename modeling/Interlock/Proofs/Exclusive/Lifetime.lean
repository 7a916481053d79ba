import Interlock.Proofs.Exclusive.Operations

/-!
# From the making of a mutex to its end

A mutex is made with the help of attributes, which are taken down again, and is taken down itself
when its lock is dropped.  Any of the calls may fail.  The calls of a constructor are few, and
`Setup` lists them; between them and the drop come those of operations, which neither make nor take
down anything (`State.Recorded.exists_calls`).  So a whole life is disciplined (`Disciplined`),
whichever calls fail.
-/

namespace Interlock

namespace Exclusive

open Mutex (Call Op)

/-! ## The calls of a constructor -/

/-- Code 0 is success. -/
theorem check_eq_ok_iff {op : String} {code : Int} :
    PrimitiveError.check op code = .ok () ↔ code = 0 := by
  unfold PrimitiveError.check
  by_cases zero : code = 0
  · simp [zero]
  · by_cases misuse : PrimitiveError.isMisuseCode code = true <;> simp [zero, misuse]

/-- Every other code is an error, and which kind it is the code tells. -/
theorem of_check_eq_error {op : String} {code : Int} {e : PrimitiveError}
    (h : PrimitiveError.check op code = .error e) :
    code ≠ 0 ∧ e.code = code ∧ (e.isSpurious = false ↔ code = 1 ∨ code = 22 ∨ code = 35) := by
  have nonzero : code ≠ 0 := by
    intro zero
    rw [check_eq_ok_iff.2 zero] at h
    cases h
  refine ⟨nonzero, ?_⟩
  rw [← PrimitiveError.isMisuseCode_iff]
  unfold PrimitiveError.check at h
  by_cases misuse : PrimitiveError.isMisuseCode code = true
  · simp only [nonzero, misuse, beq_iff_eq, ↓reduceIte] at h
    cases h
    simp [PrimitiveError.code, PrimitiveError.isSpurious, misuse]
  · simp only [nonzero, misuse, beq_iff_eq, Bool.false_eq_true, ↓reduceIte] at h
    cases h
    simp [PrimitiveError.code, PrimitiveError.isSpurious, misuse]

/-- The calls by which a mutex is made, first to last, and what comes of them.  Where the type of
the attributes cannot be set, its code stands in for that of the mutex. -/
inductive Setup : List Call → Except PrimitiveError Unit → Prop where
  | attrInit {code : Int} {e : PrimitiveError}
      (refused : PrimitiveError.check Op.attrInit.symbol code = .error e) :
      Setup [⟨.attrInit, code⟩] (.error e)
  | attrSettype {code gone : Int} {e : PrimitiveError}
      (refused : PrimitiveError.check Op.init.symbol code = .error e) :
      Setup [⟨.attrInit, 0⟩, ⟨.attrSettype, code⟩, ⟨.attrDestroy, gone⟩] (.error e)
  | init {code gone : Int} {e : PrimitiveError}
      (refused : PrimitiveError.check Op.init.symbol code = .error e) :
      Setup [⟨.attrInit, 0⟩, ⟨.attrSettype, 0⟩, ⟨.init, code⟩, ⟨.attrDestroy, gone⟩] (.error e)
  | made {gone : Int} :
      Setup [⟨.attrInit, 0⟩, ⟨.attrSettype, 0⟩, ⟨.init, 0⟩, ⟨.attrDestroy, gone⟩] (.ok ())

section Constructors

variable {σ : Type} (b : Mutex.Backend σ)

/-- Making a mutex is setting it up, call by call. -/
theorem setup_createMutex (p : Mutex.Wire σ) :
    ∃ made, (createMutex b p).2.calls = made.reverse ++ p.calls ∧
      Setup made (createMutex b p).1 := by
  rcases attrs : b.answer .attrInit p.world with ⟨code, w⟩
  rcases read : PrimitiveError.check Op.attrInit.symbol code with e | ⟨⟨⟩⟩
  · simp only [createMutex, Mutex.Wire.call, attrs, read]
    exact ⟨_, rfl, .attrInit read⟩
  obtain rfl := check_eq_ok_iff.1 read
  rcases settype : b.answer .attrSettype w with ⟨code, w'⟩
  by_cases zero : code = 0
  · subst zero
    rcases init : b.answer .init w' with ⟨code, w''⟩
    simp only [createMutex, Mutex.Wire.call, attrs, read, settype, init, ↓reduceIte]
    rcases read' : PrimitiveError.check Op.init.symbol code with e | ⟨⟨⟩⟩
    · exact ⟨_, rfl, .init read'⟩
    · obtain rfl := check_eq_ok_iff.1 read'
      exact ⟨_, rfl, .made⟩
  · simp only [createMutex, Mutex.Wire.call, attrs, read, settype, zero, ↓reduceIte]
    rcases read' : PrimitiveError.check Op.init.symbol code with e | ⟨⟨⟩⟩
    · exact ⟨_, rfl, .attrSettype read'⟩
    · exact absurd (check_eq_ok_iff.1 read') zero

/-- A lock is made by setting its mutex up. -/
theorem setup_create (spinLimit : Nat) (p : Mutex.Wire σ) :
    ∃ made, (create b spinLimit p).2.calls = made.reverse ++ p.calls ∧
      Setup made ((create b spinLimit p).1.map fun _ => ()) := by
  obtain ⟨made, calls, setup⟩ := setup_createMutex b p
  refine ⟨made, ?_⟩
  unfold create
  generalize createMutex b p = produced at calls setup ⊢
  rcases produced with ⟨e | ⟨⟨⟩⟩, wire⟩
  · exact ⟨calls, setup⟩
  · exact ⟨calls, setup⟩

/-- The constructor for which a refusal is a fault fails where the other one refuses. -/
theorem fst_createOrFail (spinLimit : Nat) (p : Mutex.Wire σ) :
    (createOrFail b spinLimit p).1 = (create b spinLimit p).1.mapError .refused := by
  unfold createOrFail
  rcases create b spinLimit p with ⟨e | lock, wire⟩
  · rfl
  · rfl

end Constructors

/-! ## Discipline -/

/-- Every call that needs another one comes after it. -/
def Preceded (needed : Call) (needs : Call → Prop) (trace : List Call) : Prop :=
  ∀ earlier c later, trace = earlier ++ c :: later → needs c → needed ∈ earlier

namespace Preceded

variable {needed c : Call} {needs : Call → Prop} {trace : List Call}

theorem of_forall (h : ∀ c ∈ trace, ¬ needs c) : Preceded needed needs trace := by
  rintro earlier c later rfl hc
  exact absurd hc (h c (by simp))

theorem cons (h : ¬ needs c) (rest : Preceded needed needs trace) :
    Preceded needed needs (c :: trace) := by
  intro earlier d later split hd
  cases earlier with
  | nil =>
    obtain ⟨rfl, rfl⟩ := List.cons.inj split
    exact absurd hd h
  | cons x earlier =>
    obtain ⟨rfl, rfl⟩ := List.cons.inj split
    exact List.mem_cons_of_mem c (rest earlier d later rfl hd)

/-- Once the needed call was made, anything may follow. -/
theorem after (h : ¬ needs needed) (trace : List Call) :
    Preceded needed needs (needed :: trace) := by
  intro earlier d later split hd
  cases earlier with
  | nil =>
    obtain ⟨rfl, rfl⟩ := List.cons.inj split
    exact absurd hd h
  | cons x earlier =>
    obtain ⟨rfl, rfl⟩ := List.cons.inj split
    exact List.mem_cons_self

end Preceded

/-- What may be said of all calls in the life of a lock, first to last; the constructor may or may
not have produced the lock. -/
structure Disciplined (produced : Bool) (trace : List Call) : Prop where
  attrDestroy : trace.countP (·.op = .attrDestroy) = if ⟨.attrInit, 0⟩ ∈ trace then 1 else 0
  init : Preceded ⟨.attrSettype, 0⟩ (·.op = .init) trace
  destroy :
    if produced then ∃ earlier code, trace = earlier ++ [⟨.destroy, code⟩] ∧
      ∀ c ∈ earlier, c.op ≠ .destroy
    else ∀ c ∈ trace, c.op ≠ .destroy
  initialized : Preceded ⟨.init, 0⟩ (Operating ·.op) trace
  undestroyed : ∀ earlier c later, trace = earlier ++ c :: later → Operating c.op →
    ∀ d ∈ earlier, d.op ≠ .destroy

/-- A mutex that was not made is neither used nor taken down. -/
theorem disciplined_of_refused {made : List Call} {e : PrimitiveError}
    (h : Setup made (.error e)) : Disciplined false made := by
  have idle : ∀ c ∈ made, ¬ Operating c.op ∧ c.op ≠ .destroy := by
    cases h <;> simp [Operating]
  refine ⟨?_, ?_, fun c hc => (idle c hc).2, .of_forall fun c hc => (idle c hc).1, ?_⟩
  · cases h with
    | attrInit refused =>
      have nonzero := (of_check_eq_error refused).1
      simp [Ne.symm nonzero]
    | attrSettype | init => simp
  · cases h with
    | attrInit | attrSettype => exact .of_forall (by simp)
    | init => exact .cons (by simp) (.after (by simp) _)
  · rintro earlier c later rfl - d hd
    exact (idle d (List.mem_append_left _ hd)).2

/-- A mutex that was set up, used and taken down was so in this order. -/
theorem disciplined_of_made {made used : List Call} (h : Setup made (.ok ()))
    (operating : ∀ c ∈ used, Operating c.op) (code : Int) :
    Disciplined true (made ++ used ++ [⟨.destroy, code⟩]) := by
  have others : ∀ c ∈ used, c.op ≠ .attrDestroy ∧ c.op ≠ .init ∧ c.op ≠ .destroy := by
    intro c hc
    rcases operating c hc with op | op | op <;> simp [op]
  have early : ∀ c ∈ made, c.op ≠ .destroy := by
    cases h
    simp
  have lasting : ∀ c ∈ made ++ used, c.op ≠ .destroy := fun c hc =>
    (List.mem_append.1 hc).elim (early c) fun late => (others c late).2.2
  refine ⟨?_, ?_, ⟨made ++ used, code, rfl, lasting⟩, ?_, ?_⟩
  · have none : used.countP (·.op = .attrDestroy) = 0 :=
      List.countP_eq_zero.2 fun c hc => by simp [(others c hc).1]
    cases h
    simp [none]
  · cases h
    exact .cons (by simp) (.after (by simp) _)
  · cases h
    exact .cons (by simp [Operating]) (.cons (by simp [Operating]) (.after (by simp [Operating]) _))
  · intro earlier c later split hc d hd
    have shorter := congrArg List.dropLast split
    rw [List.dropLast_concat, List.dropLast_append_of_ne_nil (List.cons_ne_nil c later)] at shorter
    exact lasting d (shorter ▸ List.mem_append_left _ hd)

/-- The constructor fails with the first code that is not zero. -/
theorem find?_of_refused {made : List Call} {e : PrimitiveError} (h : Setup made (.error e)) :
    ∃ c, made.find? (fun c => c.op ≠ .attrDestroy ∧ c.code ≠ 0) = some c ∧ e.code = c.code ∧
      (e.isSpurious = false ↔ c.code = 1 ∨ c.code = 22 ∨ c.code = 35) := by
  cases h with
  | attrInit refused | attrSettype refused | init refused =>
    obtain ⟨nonzero, code, codes⟩ := of_check_eq_error refused
    exact ⟨_, by simp [nonzero]; rfl, code, codes⟩

theorem zeros_of_made {made : List Call} (h : Setup made (.ok ())) :
    ⟨.attrInit, 0⟩ ∈ made ∧ ⟨.attrSettype, 0⟩ ∈ made ∧ ⟨.init, 0⟩ ∈ made := by
  cases h
  simp

/-- A mutex was refused only if one of the three calls was not answered 0. -/
theorem not_zeros_of_refused {made : List Call} {e : PrimitiveError} (h : Setup made (.error e)) :
    ¬ (⟨.attrInit, 0⟩ ∈ made ∧ ⟨.attrSettype, 0⟩ ∈ made ∧ ⟨.init, 0⟩ ∈ made) := by
  cases h with
  | attrInit refused | attrSettype refused | init refused =>
    have nonzero := Ne.symm (of_check_eq_error refused).1
    simp [nonzero]

/-! ## Lives -/

section Life

variable {σ α ε : Type}

/-- All calls in the life of a lock, first to last: a lock that the constructor produced is used in
steps and dropped. -/
def life (b : Mutex.Backend σ) (steps : List (Nat × Step α)) :
    Except ε Exclusive × Mutex.Wire σ → List Call
  | (.ok lock, wire) =>
    ((({ state := ⟨lock, wire⟩ } : Session σ).after b steps).drop b).calls.reverse
  | (.error _, wire) => wire.calls.reverse

/-- Both constructors lead to the same life. -/
theorem life_createOrFail (b : Mutex.Backend σ) (spinLimit : Nat) (p : Mutex.Wire σ)
    (steps : List (Nat × Step α)) :
    life b steps (createOrFail b spinLimit p) = life b steps (create b spinLimit p) := by
  unfold createOrFail
  rcases create b spinLimit p with ⟨e | lock, wire⟩
  · rfl
  · rfl

/-- Taking a mutex down is one call. -/
theorem calls_destroy (b : Mutex.Backend σ) (wire : Mutex.Wire σ) :
    ∃ code, (wire.destroy b).calls = ⟨.destroy, code⟩ :: wire.calls := by
  refine ⟨(b.answer .destroy wire.world).1, ?_⟩
  unfold Mutex.Wire.destroy Mutex.Wire.call
  rcases b.answer .destroy wire.world with ⟨code, world⟩
  by_cases zero : code = 0 <;> simp [zero, Mutex.Wire.report]

/-- A lock that was made is used and then taken down. -/
theorem life_of_made (b : Mutex.Backend σ) (steps : List (Nat × Step α)) (lock : Exclusive)
    (wire : Mutex.Wire σ) :
    ∃ used code, (∀ c ∈ used, Operating c.op) ∧
      life b steps ((.ok lock, wire) : Except ε Exclusive × Mutex.Wire σ) =
        wire.calls.reverse ++ used ++ [⟨.destroy, code⟩] := by
  obtain ⟨used, later, operating⟩ :=
    (Session.recorded_after (s := { state := ⟨lock, wire⟩ }) (.start (b := b)) steps).exists_calls
  obtain ⟨code, destroyed⟩ :=
    calls_destroy b (Session.after b steps { state := ⟨lock, wire⟩ }).state.wire
  refine ⟨used, code, operating, ?_⟩
  rw [life, Session.drop, destroyed, List.reverse_cons, later, List.reverse_append,
    List.reverse_reverse]

/-- The life of a lock is disciplined, whatever its mutex answers. -/
theorem disciplined_life (b : Mutex.Backend σ) (spinLimit : Nat) (world : σ)
    (steps : List (Nat × Step α)) :
    Disciplined (create b spinLimit { world }).1.isOk
      (life b steps (create b spinLimit { world })) := by
  obtain ⟨made, calls, setup⟩ := setup_create b spinLimit { world }
  generalize create b spinLimit { world } = produced at calls setup ⊢
  have trace : produced.2.calls.reverse = made := by
    rw [calls, List.append_nil, List.reverse_reverse]
  rcases produced with ⟨e | lock, wire⟩
  · rw [life, trace]
    exact disciplined_of_refused setup
  · obtain ⟨used, code, operating, whole⟩ := life_of_made (ε := PrimitiveError) b steps lock wire
    rw [whole, trace]
    exact disciplined_of_made setup operating code

/-- **The mutex is made, used and taken down in order.**  Whatever codes its calls answer, and
whatever steps are taken with the lock, also such that unwind: the attributes are taken down exactly
once if they were made, and never otherwise; the mutex is initialized only once the type of the
attributes is set; it is taken down exactly once, last, if the constructor produced a lock, and
never otherwise; and it is used only between the two.  The constructor produces a lock exactly if
the attributes, their type and the mutex answered 0, and fails with the first other code, which
means misuse for 1, 22 and 35 and may pass for any other.  The constructor for which a refusal is a
fault does the same. -/
theorem Session.disciplined (b : Mutex.Backend σ) (spinLimit : Nat) (world : σ)
    (steps : List (Nat × Step α)) :
    let made := create b spinLimit { world }
    let madeOrFailed := createOrFail b spinLimit { world }
    Disciplined made.1.isOk (life b steps made) ∧
    life b steps madeOrFailed = life b steps made ∧ madeOrFailed.1 = made.1.mapError .refused ∧
    (made.1.isOk = true ↔ ⟨.attrInit, 0⟩ ∈ made.2.calls ∧ ⟨.attrSettype, 0⟩ ∈ made.2.calls ∧
      ⟨.init, 0⟩ ∈ made.2.calls) ∧
    ∀ e, made.1 = .error e → ∃ c : Call,
      made.2.calls.reverse.find? (fun c => c.op ≠ .attrDestroy ∧ c.code ≠ 0) = some c ∧
      e.code = c.code ∧ (e.isSpurious = false ↔ c.code = 1 ∨ c.code = 22 ∨ c.code = 35) := by
  intro made madeOrFailed
  refine ⟨disciplined_life b spinLimit world steps, life_createOrFail b spinLimit _ steps,
    fst_createOrFail b spinLimit _, ?_⟩
  obtain ⟨calls, trace, setup⟩ := setup_create b spinLimit { world }
  have trace : made.2.calls = calls.reverse := trace.trans (List.append_nil _)
  have setup : Setup calls (made.1.map fun _ => ()) := setup
  clear_value made
  rcases made with ⟨e | lock, wire⟩
  · rw [trace, List.reverse_reverse]
    refine ⟨?_, ?_⟩
    · simpa [Except.isOk, Except.toBool] using not_zeros_of_refused setup
    · rintro e ⟨⟩
      exact find?_of_refused setup
  · rw [trace]
    refine ⟨?_, nofun⟩
    simpa [Except.isOk, Except.toBool] using zeros_of_made setup

/-- Where the type cannot be set, the attributes are taken down and the mutex is never touched. -/
example : life Mutex.Script.backend ([] : List (Nat × Step Unit))
    (create Mutex.Script.backend 1 { world := { attrSettype := ⟨[(12, 1)]⟩ } }) =
      [⟨.attrInit, 0⟩, ⟨.attrSettype, 12⟩, ⟨.attrDestroy, 0⟩] := by
  decide

end Life

end Exclusive

end Interlock
