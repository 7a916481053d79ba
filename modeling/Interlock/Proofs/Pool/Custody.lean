import Interlock.Proofs.Pool.Parties

/-!
# Who joins the workers

A run shows what happens to the handles of the workers' threads (`handling`), and what was seen
tells who has them (`Custody`): they gather while the pool is made, one party takes them all, and
joins the threads one by one before it says so, or unwinds in between and leaves the others alone.
-/

namespace Interlock.Pool

variable {p q : Pool} {log : Array (Thread × Log.Line)}

/-! ## Who has the handles -/

/-- What is seen of the handles of the workers' threads. -/
inductive Handling where
  /-- Somebody takes all handles that are there. -/
  | took (who : Party) (handles : List Nat)
  /-- Somebody is through with joining a thread. -/
  | joined (who : Party) (index : Nat)
  deriving DecidableEq, Repr

/-- What a step does with the handles. -/
def handling (p : Pool) (a : Action) (q : Pool) : List Handling :=
  match a.party? with
  | none => []
  | some who =>
    match p.standing who, q.standing who with
    | some .collecting, some (.joining handles _) => [.took who handles]
    | some (.joining (i :: left) _), some (.joining left' _) =>
      if left' = left then [.joined who i] else []
    | some (.joining (i :: _) _), some (.broken _) => [.joined who i]
    | _, _ => []

/-- Whether a reaper has taken the handles and not yet said that the workers are joined. -/
def Reaping.hasTaken : Reaping → Bool
  | .joining .. => true
  | .draining _ => true
  | .marking _ => true
  | .broken _ => true
  | _ => false

/-- Whether a reaper has joined all threads and not yet said so. -/
def Reaping.hasJoined : Reaping → Bool
  | .draining _ => true
  | .marking _ => true
  | _ => false

theorem Reaping.hasRole_of_hasTaken {r : Reaping} (h : r.hasTaken = true) : r.hasRole = true := by
  cases r <;> first | rfl | cases h

theorem Reaping.hasTaken_of_hasJoined {r : Reaping} (h : r.hasJoined = true) :
    r.hasTaken = true := by
  cases r <;> first | rfl | cases h

theorem Reaping.hasTaken_roused (r : Reaping) : r.roused.hasTaken = r.hasTaken := by
  cases r <;> rfl

theorem Reaping.roused_of_hasTaken {r : Reaping} (h : r.hasTaken = true) : r.roused = r := by
  cases r <;> first | rfl | cases h

/-- Somebody has joined a thread: the worker is over. -/
def IsOver (p : Pool) (i : Nat) : Prop :=
  ∃ w payload, p.workers[i]? = some w ∧ w.ended? = some payload

/-- The threads that have been started. -/
def IsBorn (p : Pool) (i : Nat) : Prop := ∃ w, p.workers[i]? = some w ∧ w.phase ≠ .unborn

/-- A reaper that has taken the handles has these threads left to join, or will not join them. -/
def Reaping.HasLeft (left : List Nat) (r : Reaping) : Prop :=
  (∃ n, r = .joining left n) ∨ (∃ payload, r = .broken payload) ∨ left = [] ∧ r.hasJoined = true

/-- Whoever took the handles goes on to join the threads that are left, until he says that all
workers are joined, or unwinds. -/
def Joins (p : Pool) (who : Party) (left : List Nat) : Prop :=
  if p.control.isReaped then left = []
  else ∃ r, p.standing who = some r ∧ r.hasTaken = true ∧ r.HasLeft left

/-- Who has the handles, given what was seen of them. -/
inductive Custody (p : Pool) : List Handling → Prop
  /-- They gather while the pool is made, and wait for a reaper. -/
  | gathering (hreaped : p.control.isReaped = false)
      (untaken : ∀ who r, p.standing who = some r → r.hasTaken = false)
      (nodup : p.handles.Nodup) (fresh : ∀ i, p.creation = .storing i → i ∉ p.handles)
      (born : ∀ i, p.IsBorn i ↔ i ∈ p.handles ∨ p.creation = .storing i) : Custody p []
  /-- One party has taken them all, and has joined the threads in turn. -/
  | taken (who : Party) (done left : List Nat) (handles : p.handles = [])
      (nodup : (done ++ left).Nodup) (born : ∀ i, p.IsBorn i ↔ i ∈ done ++ left)
      (finished : ∀ i ∈ done, p.IsOver i) (joins : p.Joins who left) :
      Custody p (.took who (done ++ left) :: done.map (.joined who))

section Custody

/-- What endures neither brings workers to life nor takes them back. -/
theorem Endures.isBorn_iff (h : Endures p q) {i : Nat} : q.IsBorn i ↔ p.IsBorn i := by
  constructor
  · rintro ⟨x, hx, born⟩
    obtain ⟨w, hw, same⟩ := h.before hx
    exact ⟨w, hw, mt same.2 born⟩
  · rintro ⟨w, hw, born⟩
    obtain ⟨x, hx, same, -⟩ := h.phases i w hw
    exact ⟨x, hx, mt same.1 born⟩

theorem Endures.isOver (h : Endures p q) {i : Nat} (hi : p.IsOver i) : q.IsOver i := by
  obtain ⟨w, payload, hw, ended⟩ := hi
  obtain ⟨x, hx, -, still⟩ := h.phases i w hw
  exact ⟨x, payload, hx, still payload ended⟩

/-- Nobody takes the handles by being disturbed. -/
theorem Stays.untaken {who : Party} (h : Stays p q who)
    (hp : ∀ r, p.standing who = some r → r.hasTaken = false) :
    ∀ r, q.standing who = some r → r.hasTaken = false := by
  intro r' hr'
  obtain ⟨r, hr, rfl | rfl⟩ := h.before hr'
  · exact hp r' hr
  · rw [Reaping.hasTaken_roused]
    exact hp r hr

/-- A step in which the one who makes it stays in reaping, or comes, is not about the handles. -/
theorem handling_eq_nil {a : Action}
    (h : ∀ who, a.party? = some who → Stays p q who ∨
      p.standing who = none ∧ q.standing who = some .arriving) : handling p a q = [] := by
  unfold handling
  split
  · rfl
  · next who hwho =>
    split
    · next left n before after =>
      rcases h who hwho with (same | woken) | ⟨none, -⟩
      · rw [same, before] at after
        cases after
      · rw [woken, before] at after
        cases after
      · rw [none] at before
        cases before
    · next i left n left' n' before after =>
      rcases h who hwho with stays | ⟨none, -⟩
      · have still := stays.standing_eq before rfl
        rw [still, Option.some.injEq, Reaping.joining.injEq] at after
        rw [if_neg]
        intro same
        rw [← after.1] at same
        simpa using congrArg List.length same
      · rw [none] at before
        cases before
    · next before after =>
      rcases h who hwho with stays | ⟨none, -⟩
      · rw [stays.standing_eq before rfl] at after
        cases after
      · rw [none] at before
        cases before
    · rfl

/-- Who joins workers goes on while it stays. -/
theorem Joins.stays {who : Party} {left : List Nat} (h : p.Joins who left)
    (hcontrol : q.control = p.control) (hs : Stays p q who) : q.Joins who left := by
  unfold Joins at h ⊢
  rw [hcontrol]
  split
  · next reaped => rwa [if_pos reaped] at h
  · next unreaped =>
    rw [if_neg unreaped] at h
    obtain ⟨r, hr, taken, place⟩ := h
    exact ⟨r, hs.standing_eq hr (Reaping.roused_of_hasTaken taken), taken, place⟩

/-- A move after which no handles are taken handles none. -/
theorem handling_of_untaken {a : Action}
    (h : ∀ who, a.party? = some who → ∀ r, q.standing who = some r → r.hasTaken = false) :
    handling p a q = [] := by
  unfold handling
  split
  · rfl
  · next who hwho =>
    split
    · next after => exact absurd (h who hwho _ after) (by simp [Reaping.hasTaken])
    · next after => exact absurd (h who hwho _ after) (by simp [Reaping.hasTaken])
    · next after => exact absurd (h who hwho _ after) (by simp [Reaping.hasTaken])
    · rfl

/-- A reaper's move is before the handles are taken or after the workers are joined, or it takes
the handles, or joins a thread, or says that all are joined, or does none of this in between. -/
theorem ReapingMove.kind {r r' : Reaping} (m : ReapingMove p log r r' q) :
    (r.hasTaken = false ∧ r'.hasTaken = false ∧ q.handles = p.handles ∧
      q.control.isReaped = p.control.isReaped) ∨
    (r = .collecting ∧ r' = .joining p.handles p.handles.length ∧ q.handles = [] ∧
      q.control = p.control) ∨
    (∃ i left n, r = .joining (i :: left) n ∧
      (r' = .joining left n ∨ ∃ payload, r' = .broken payload) ∧ p.IsOver i ∧
      q.handles = p.handles ∧ q.control = p.control) ∨
    (∃ n, r = .marking n ∧ r' = .yielding n ∧ q.handles = p.handles ∧
      q.control.isReaped = true) ∨
    (r.hasTaken = true ∧ r'.hasTaken = true ∧ q.handles = p.handles ∧ q.control = p.control ∧
      (∀ left, r.HasLeft left → r'.HasLeft left) ∧
      (r' = r ∨ r'.hasJoined = true)) := by
  cases m with
  | collect => exact .inr (.inl ⟨rfl, rfl, rfl, rfl⟩)
  | join hw h => exact .inr (.inr (.inl ⟨_, _, _, rfl, .inl rfl, ⟨_, _, hw, h⟩, rfl, rfl⟩))
  | fall hw h =>
    exact .inr (.inr (.inl ⟨_, _, _, rfl, .inr ⟨_, rfl⟩, ⟨_, _, hw, h⟩, rfl, rfl⟩))
  | mark => exact .inr (.inr (.inr (.inl ⟨_, rfl, rfl, rfl, p.control.isReaped_markReaped⟩)))
  | joined =>
    refine .inr (.inr (.inr (.inr ⟨rfl, rfl, rfl, rfl, ?_, .inr rfl⟩)))
    rintro left (⟨n, e⟩ | ⟨payload, e⟩ | ⟨-, through⟩)
    · cases e
      exact .inr (.inr ⟨rfl, rfl⟩)
    · cases e
    · cases through
  | drain | drained =>
    refine .inr (.inr (.inr (.inr ⟨rfl, rfl, rfl, rfl, ?_, .inr rfl⟩)))
    rintro left (⟨n, e⟩ | ⟨payload, e⟩ | ⟨none, -⟩)
    · cases e
    · cases e
    · exact .inr (.inr ⟨none, rfl⟩)
  | @stay r =>
    cases taken : r.hasTaken with
    | false => exact .inl ⟨rfl, rfl, rfl, rfl⟩
    | true => exact .inr (.inr (.inr (.inr ⟨rfl, rfl, rfl, rfl, fun _ => id, .inl rfl⟩)))
  | @nudge i n n' q m =>
    refine .inl ⟨rfl, ?_, m.handles_eq, by rw [m.control_eq]⟩
    cases n' with
    | done reached =>
      simp only [Reaping.afterNudge, Reaping.nudgeFrom]
      split <;> rfl
    | looking | notifying => rfl
  | broadcast =>
    refine .inl ⟨rfl, ?_, rfl, rfl⟩
    simp only [Reaping.nudgeFrom]
    split <;> rfl
  | stop => exact .inl ⟨rfl, rfl, rfl, p.control.isReaped_requestStop⟩
  | win | lose => exact .inl ⟨rfl, rfl, rfl, p.control.isReaped_beginReaping⟩
  | cancel | yield => exact .inl ⟨rfl, rfl, rfl, p.control.isReaped_yieldReaping⟩
  | known | go | told | sleep | late | first | publish | report => exact .inl ⟨rfl, rfl, rfl, rfl⟩

/-- Handles are taken only when the maker is through. -/
theorem Joins.settled {who : Party} {left : List Nat} (h : p.Joins who left) (hp : p.Sound) :
    p.creation.isSettled = true := by
  unfold Joins at h
  split at h
  · next reaped => exact hp.ready.settled (hp.roles.stops reaped)
  · obtain ⟨r, hr, -⟩ := h
    exact hp.settled_of_standing hr

/-- Whoever has taken the handles is the one who took them. -/
theorem Joins.unique {who₀ who : Party} {left : List Nat} {r : Reaping} (h : p.Joins who₀ left)
    (hp : p.Sound) (hr : p.standing who = some r) (taken : r.hasTaken = true) :
    who = who₀ ∧ r.HasLeft left ∧ p.control.isReaped = false := by
  have unreaped : p.control.isReaped = false := by
    have fits := hp.fits_of_standing hr
    cases r with
    | joining | draining | marking | broken => exact fits.1.2
    | _ => cases taken
  rw [Joins, if_neg (by simp [unreaped])] at h
  obtain ⟨r₀, hr₀, taken₀, place⟩ := h
  have same : who = who₀ := hp.role_unique hr hr₀ (Reaping.hasRole_of_hasTaken taken)
    (Reaping.hasRole_of_hasTaken taken₀)
  subst same
  obtain rfl : r = r₀ := Option.some.inj (hr.symm.trans hr₀)
  exact ⟨rfl, place, unreaped⟩

/-- Whoever has taken the handles goes on beside another reaper, until the workers are joined. -/
theorem Joins.others {who₀ who : Party} {left : List Nat} {r : Reaping} (h : p.Joins who₀ left)
    (hr : p.standing who = some r) (untaken : r.hasTaken = false)
    (reaped : q.control.isReaped = p.control.isReaped)
    (others : ∀ who', who' ≠ who → Stays p q who') : q.Joins who₀ left := by
  unfold Joins at h ⊢
  rw [reaped]
  split
  · next hreaped => rwa [if_pos hreaped] at h
  · next hreaped =>
    rw [if_neg hreaped] at h
    obtain ⟨r₀, hr₀, taken, place⟩ := h
    have ne : who₀ ≠ who := by
      rintro rfl
      obtain rfl : r = r₀ := Option.some.inj (hr.symm.trans hr₀)
      simp [untaken] at taken
    have still := (others who₀ ne).standing_eq hr₀ (Reaping.roused_of_hasTaken taken)
    exact ⟨r₀, still, taken, place⟩

section Reap

variable {a : Action} {who : Party} {r r' : Reaping} {s : Pool} (hp : p.Sound)
  (ha : a.party? = some who) (hr : p.standing who = some r) (m : ReapingMove p log r r' s)
  (hworkers : q.workers = s.workers) (hcontrol : q.control = s.control)
  (hhandles : q.handles = s.handles) (hstoring : ∀ i, q.creation ≠ .storing i)
  (own : r' ≠ .returned → q.standing who = some r')
  (gone : r' = .returned → q.standing who = some .returned ∨ who = .maker ∧
    ∀ r'', q.standing who = some r'' → r'' = .arriving)
  (others : ∀ who', who' ≠ who → Stays p q who')

include m hworkers in
theorem ReapingMove.endures : Endures p q := by
  have hu := m.undisturbed.endures
  exact ⟨(congrArg List.length hworkers).trans hu.size, by rw [hworkers]; exact hu.phases⟩

include own gone in
theorem untaken_of_own (untaken : r'.hasTaken = false) {r'' : Reaping}
    (hr'' : q.standing who = some r'') : r''.hasTaken = false := by
  rcases standing_of_own own gone hr'' with rfl | rfl
  · exact untaken
  · rfl

include ha own gone in
theorem handling_of_own (untaken : r'.hasTaken = false) : handling p a q = [] := by
  refine handling_of_untaken fun who' ha' r'' hr'' => ?_
  obtain rfl : who = who' := Option.some.inj (ha.symm.trans ha')
  exact untaken_of_own own gone untaken hr''

include hp ha hr m hworkers hcontrol hhandles hstoring own gone others

/-- As long as the handles are not taken, they are those of the workers that live. -/
theorem Custody.reap_gathering (hreaped : p.control.isReaped = false)
    (untaken : ∀ who r, p.standing who = some r → r.hasTaken = false) (nodup : p.handles.Nodup)
    (born : ∀ i, p.IsBorn i ↔ i ∈ p.handles ∨ p.creation = .storing i) :
    Custody q ([] ++ handling p a q) := by
  have hu := m.endures hworkers
  have unstored (i : Nat) : p.creation ≠ .storing i := by
    intro e
    have settled := hp.settled_of_standing hr
    rw [e] at settled
    cases settled
  rcases m.kind with ⟨-, untaken', handles, reaped⟩ | ⟨rfl, rfl, handles, control⟩ |
    ⟨i, left, n, rfl, -⟩ | ⟨n, rfl, -⟩ | ⟨taken, -⟩
  · rw [handling_of_own ha own gone untaken']
    refine .gathering ?_ ?_ ?_ ?_ ?_
    · rw [hcontrol, reaped, hreaped]
    · intro who' r'' hr''
      by_cases same : who' = who
      · subst same
        exact untaken_of_own own gone untaken' hr''
      · exact (others who' same).untaken (untaken who') r'' hr''
    · rw [hhandles, handles]
      exact nodup
    · exact fun i e => absurd e (hstoring i)
    · intro i
      rw [hu.isBorn_iff, born, hhandles, handles, or_iff_left (unstored i),
        or_iff_left (hstoring i)]
  · have taking : handling p a q = [.took who ([] ++ p.handles)] := by
      simp [handling, ha, hr, own]
    rw [taking]
    refine .taken who [] p.handles (hhandles.trans handles) nodup ?_ (by simp) ?_
    · intro i
      rw [hu.isBorn_iff, born, or_iff_left (unstored i)]
      rfl
    · rw [Joins, if_neg (by rw [hcontrol, control, hreaped]; simp)]
      exact ⟨_, own (by simp), rfl, .inl ⟨_, rfl⟩⟩
  · exact absurd (untaken who _ hr) (by simp [Reaping.hasTaken])
  · exact absurd (untaken who _ hr) (by simp [Reaping.hasTaken])
  · exact absurd (untaken who _ hr) (by simp [taken])

omit hstoring in
/-- Once the handles are taken, they are joined or left to join. -/
theorem Custody.reap_taken {who₀ : Party} {done left : List Nat} (handles : p.handles = [])
    (nodup : (done ++ left).Nodup) (born : ∀ i, p.IsBorn i ↔ i ∈ done ++ left)
    (finished : ∀ i ∈ done, p.IsOver i) (joins : p.Joins who₀ left) :
    Custody q ((.took who₀ (done ++ left) :: done.map (.joined who₀)) ++ handling p a q) := by
  have hu := m.endures hworkers
  have born' (i : Nat) : q.IsBorn i ↔ i ∈ done ++ left := by rw [hu.isBorn_iff, born]
  have finished' : ∀ i ∈ done, q.IsOver i := fun i hi => hu.isOver (finished i hi)
  rcases m.kind with ⟨untaken, untaken', still, reaped⟩ | ⟨rfl, -⟩ |
    ⟨i, left', n, rfl, onward, ended, still, control⟩ | ⟨n, rfl, rfl, still, reaped⟩ |
    ⟨taken, taken', still, control, place', stay⟩
  · rw [handling_of_own ha own gone untaken', List.append_nil]
    exact .taken who₀ done left (hhandles.trans (still.trans handles)) nodup born' finished'
      (joins.others hr untaken (by rw [hcontrol, reaped]) others)
  · -- the handles are taken once
    have unreaped := (hp.fits_of_standing hr).2
    rw [Joins, if_neg (by simp [unreaped])] at joins
    obtain ⟨r₀, hr₀, taken, -⟩ := joins
    obtain rfl := hp.role_unique hr hr₀ rfl (Reaping.hasRole_of_hasTaken taken)
    obtain rfl : _ = r₀ := Option.some.inj (hr.symm.trans hr₀)
    cases taken
  · obtain ⟨rfl, place, unreaped⟩ := joins.unique hp hr rfl
    obtain rfl : left = i :: left' := by
      rcases place with ⟨n', e⟩ | ⟨payload, e⟩ | ⟨-, through⟩
      · cases e
        rfl
      · cases e
      · cases through
    have seen : handling p a q = [.joined who i] := by
      rcases onward with rfl | ⟨payload, rfl⟩ <;> simp [handling, ha, hr, own]
    have onward' : r' ≠ .returned ∧ r'.hasTaken = true ∧ r'.HasLeft left' := by
      rcases onward with rfl | ⟨payload, rfl⟩
      · exact ⟨by simp, rfl, .inl ⟨n, rfl⟩⟩
      · exact ⟨by simp, rfl, .inr (.inl ⟨payload, rfl⟩)⟩
    have next : Custody q (.took who ((done ++ [i]) ++ left') ::
        (done ++ [i]).map (.joined who)) := by
      rw [List.append_cons] at nodup
      refine .taken who (done ++ [i]) left' (hhandles.trans (still.trans handles)) nodup ?_ ?_ ?_
      · intro j
        rw [born' j, List.append_cons]
      · intro j hj
        rcases List.mem_append.1 hj with hj | hj
        · exact finished' j hj
        · rw [List.mem_singleton.1 hj]
          exact hu.isOver ended
      · rw [Joins, if_neg (by rw [hcontrol, control, unreaped]; simp)]
        exact ⟨_, own onward'.1, onward'.2⟩
    rw [seen]
    simpa using next
  · obtain ⟨rfl, place, -⟩ := joins.unique hp hr rfl
    rw [handling_of_own ha own gone rfl, List.append_nil]
    refine .taken who done left (hhandles.trans (still.trans handles)) nodup born' finished' ?_
    rw [Joins, if_pos (by rw [hcontrol, reaped])]
    rcases place with ⟨n', e⟩ | ⟨payload, e⟩ | ⟨none, -⟩
    · cases e
    · cases e
    · exact none
  · obtain ⟨rfl, place, unreaped⟩ := joins.unique hp hr taken
    have there := own (by rintro rfl; cases taken')
    have seen : handling p a q = [] := by
      rcases stay with rfl | other
      · exact handling_eq_nil fun who' ha' => by
          obtain rfl : who = who' := Option.some.inj (ha.symm.trans ha')
          exact .inl (.inl (there.trans hr.symm))
      · cases r' with
        | draining | marking => simp [handling, ha, there]
        | _ => cases other
    rw [seen, List.append_nil]
    refine .taken who done left (hhandles.trans (still.trans handles)) nodup born' finished' ?_
    rw [Joins, if_neg (by rw [hcontrol, control, unreaped]; simp)]
    exact ⟨r', there, taken', place' left place⟩

end Reap

/-- Every move of a teardown keeps the handles in custody. -/
theorem Custody.reaperMove {events : List Handling} (h : Custody p events) (hp : p.Sound)
    {a : Action} (m : ReaperMove p a q) : Custody q (events ++ handling p a q) := by
  cases m with
  | quiet hu hcontrol hhandles hstoring others =>
    rw [handling_eq_nil fun who _ => others who, List.append_nil]
    cases h with
    | gathering hreaped untaken nodup fresh born =>
      refine .gathering (by rw [hcontrol, hreaped]) ?_ (by rwa [hhandles]) ?_ ?_
      · intro who r hr
        rcases others who with stays | ⟨-, arriving⟩
        · exact stays.untaken (untaken who) r hr
        · obtain rfl : r = .arriving := Option.some.inj (hr.symm.trans arriving)
          rfl
      · intro i e
        rw [hhandles]
        exact fresh i ((hstoring i).1 e)
      · intro i
        rw [hu.isBorn_iff, born, hhandles, hstoring]
    | taken who done left handles nodup born finished joins =>
      refine .taken who done left (hhandles.trans handles) nodup ?_ ?_ ?_
      · intro i
        rw [hu.isBorn_iff, born]
      · exact fun i hi => hu.isOver (finished i hi)
      · rcases others who with stays | ⟨none, -⟩
        · exact joins.stays hcontrol stays
        · unfold Joins at joins ⊢
          rw [hcontrol]
          split
          · next reaped => rwa [if_pos reaped] at joins
          · next unreaped =>
            rw [if_neg unreaped, none] at joins
            obtain ⟨r, hr, -⟩ := joins
            cases hr
  | spawn i w x hspawning hstoring hw hunborn hborn hworkers hcontrol hhandles others =>
    rw [handling_eq_nil fun who _ => .inl (others who), List.append_nil]
    have unborn : ¬ p.IsBorn i := by
      rintro ⟨y, hy, born⟩
      obtain rfl : w = y := Option.some.inj (hw.symm.trans hy)
      exact born hunborn
    have born' (j : Nat) : q.IsBorn j ↔ j = i ∨ p.IsBorn j := by
      by_cases own : i = j
      · subst own
        exact iff_of_true ⟨x, workers_set_self hw hworkers, hborn⟩ (.inl rfl)
      · simp only [IsBorn, workers_set_of_ne hworkers own, Ne.symm own, false_or]
    cases h with
    | gathering hreaped untaken nodup fresh born =>
      refine .gathering (by rw [hcontrol, hreaped]) ?_ (by rwa [hhandles]) ?_ ?_
      · exact fun who => (others who).untaken (untaken who)
      · intro j e hj
        rw [hstoring, Creation.storing.injEq] at e
        subst e
        rw [hhandles] at hj
        exact unborn ((born i).2 (.inl hj))
      · intro j
        rw [born', born, hhandles, hspawning, hstoring, or_comm]
        simp [eq_comm]
    | taken who done left handles nodup born finished joins =>
      have settled := joins.settled hp
      rw [hspawning] at settled
      cases settled
  | store i hstoring hnext hworkers hcontrol hhandles others =>
    rw [handling_eq_nil fun who _ => .inl (others who), List.append_nil]
    have hu : Endures p q := .of_eq hworkers
    cases h with
    | gathering hreaped untaken nodup fresh born =>
      refine .gathering (by rw [hcontrol, hreaped]) ?_ ?_ (fun j e => absurd e (hnext j)) ?_
      · exact fun who => (others who).untaken (untaken who)
      · rw [hhandles]
        exact List.nodup_append.2 ⟨nodup, List.nodup_singleton i, by
          rintro j hj _ hi rfl
          exact fresh i hstoring (List.mem_singleton.1 hi ▸ hj)⟩
      · intro j
        rw [hu.isBorn_iff, born, hhandles, hstoring, or_iff_left (hnext j)]
        simp [eq_comm]
    | taken who done left handles nodup born finished joins =>
      have settled := joins.settled hp
      rw [hstoring] at settled
      cases settled
  | reap log who r r' s ha hr m hworkers hcontrol hhandles hstoring own gone others =>
    cases h with
    | gathering hreaped untaken nodup fresh born =>
      exact Custody.reap_gathering hp ha hr m hworkers hcontrol hhandles hstoring own gone others
        hreaped untaken nodup born
    | taken who₀ done left handles nodup born finished joins =>
      exact Custody.reap_taken hp ha hr m hworkers hcontrol hhandles own gone others
        handles nodup born finished joins

end Custody

/-- After every run all handles are in custody. -/
theorem custody_run (config : Config)
    (spawner : Nat → Except StartFailure (Option Payload.Inert)) (actions : List Action) :
    Custody ((create config spawner).run actions)
      ((create config spawner).seen handling actions) := by
  have unreaped : ({} : Control).isReaped = false := by decide
  refine seen_keep ?_ ?_ actions
  · rcases create_cases config spawner with ⟨e, made⟩ | ⟨-, made⟩
    · rw [made]
      refine .gathering unreaped ?_ .nil (by simp) ?_
      · intro who r hr
        cases who <;> simp [standing, Creation.reaping?] at hr
      · simp [IsBorn]
    · rw [made]
      refine .gathering unreaped ?_ .nil (by simp) ?_
      · intro who r hr
        cases who <;> simp [standing, Creation.reaping?] at hr
      · intro i
        refine iff_of_false ?_ (by simp)
        rintro ⟨w, hw, born⟩
        rw [List.eq_of_mem_replicate (List.mem_of_getElem? hw)] at born
        exact born rfl
  · intro p q log a events sound m h
    exact h.reaperMove sound (sound.reaperMove m)

/-- When the last thread has been joined, every worker that was born has ended. -/
theorem Reachable.ended_of_joined {config : Config}
    {spawner : Nat → Except StartFailure (Option Payload.Inert)} {p : Pool}
    (h : Reachable config spawner p)
    (joined : p.control.isReaped = true ∨
      ∃ who r, p.standing who = some r ∧ r.hasJoined = true) {i : Nat} {w : Worker}
    (hw : p.workers[i]? = some w) (born : w.phase ≠ .unborn) :
    ∃ payload, w.ended? = some payload := by
  obtain ⟨actions, rfl⟩ := reachable_iff_run.1 h
  have custody := custody_run config spawner actions
  generalize (create config spawner).seen handling actions = events at custody
  cases custody with
  | gathering unreaped untaken =>
    rcases joined with reaped | ⟨who, r, hr, through⟩
    · simp [reaped] at unreaped
    · have taken := Reaping.hasTaken_of_hasJoined through
      simp [untaken who r hr] at taken
  | taken taker done left handles nodup all finished joins =>
    have none : left = [] := by
      rcases joined with reaped | ⟨who, r, hr, through⟩
      · rwa [Joins, if_pos reaped] at joins
      · obtain ⟨-, ⟨n, rfl⟩ | ⟨payload, rfl⟩ | ⟨none, -⟩, -⟩ :=
          joins.unique h.sound hr (Reaping.hasTaken_of_hasJoined through)
        · cases through
        · cases through
        · exact none
    have member : i ∈ done := by simpa [none] using (all i).1 ⟨w, hw, born⟩
    obtain ⟨x, payload, hx, ended⟩ := finished i member
    obtain rfl : w = x := Option.some.inj (hw.symm.trans hx)
    exact ⟨payload, ended⟩

/-- When the last thread has been joined, no worker goes on. -/
theorem Reachable.isOut_of_joined {config : Config}
    {spawner : Nat → Except StartFailure (Option Payload.Inert)} {p : Pool}
    (h : Reachable config spawner p)
    (joined : p.control.isReaped = true ∨
      ∃ who r, p.standing who = some r ∧ r.hasJoined = true) {i : Nat} {w : Worker}
    (hw : p.workers[i]? = some w) : w.isOut = true := by
  refine Worker.isOut_iff.2 ?_
  by_cases unborn : w.phase = .unborn
  · exact .inl unborn
  · exact .inr (h.ended_of_joined joined hw unborn)

end Interlock.Pool
