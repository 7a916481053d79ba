import Interlock.Mutex.Script
import Interlock.Proofs.Debugging.Exclusive
import Interlock.Proofs.Debugging.ReadWrite

/-!
# Debugging is not to be seen

What the two locks do does not depend on whether they are being debugged, on when that was switched
or on how often.
-/

namespace Interlock

namespace Debugging

variable {σ τ α β : Type}

/-- **Debugging does not change what a lock does.**  For both locks, whatever their mutex or raw
lock answers: two runs that differ only in the steps that switch debugging on or off, from states
that differ only in the flag and in lines at level `debug`, agree at every other step.  The replies
are the same, panics included, except that a shown exclusive lock tells its flag; and so are the
calls made so far, the counters, the books, the guards and the rest of the log (`hush`). -/
theorem unseen (b : Mutex.Backend σ) (raw : ReadWrite.Raw τ) (thread : Nat) :
    (∀ (steps steps' : List (Exclusive.Step α)) (s s' : Exclusive.Session σ),
      steps.filter (!·.isSilent) = steps'.filter (!·.isSilent) → s.hush = s'.hush →
      List.Forall₂ (SeenAlike Exclusive.Session.hush Exclusive.Reply.Alike)
          (s.course b thread steps) (s'.course b thread steps') ∧
        (s.run b thread steps).2.hush = (s'.run b thread steps').2.hush) ∧
    ∀ (steps steps' : List (ReadWrite.Step β)) (s s' : ReadWrite.Session τ),
      steps.filter (!·.isSilent) = steps'.filter (!·.isSilent) → s.hush = s'.hush →
      List.Forall₂ (SeenAlike ReadWrite.Session.hush Eq)
          (s.course raw thread steps) (s'.course raw thread steps') ∧
        (s.run raw thread steps).2.hush = (s'.run raw thread steps').2.hush :=
  ⟨fun _ _ _ _ same h => Exclusive.Session.course_alike b thread same h,
    fun _ _ _ _ same h => ReadWrite.Session.course_alike raw thread same h⟩

/-- A contended acquisition of each lock, debugged or not: the logs differ and nothing else. -/
theorem unseen_of_contended :
    let mutex : Exclusive.Session Mutex.Script :=
      { state := { lock := { spinLimit := 2 }, wire := { world := { tryLock := ⟨[(16, 2)]⟩ } } } }
    let raw : ReadWrite.Session ReadWrite.Script :=
      { system := .fresh 1 2 { shared := ⟨[(false, 3)]⟩ } }
    let on : List (Exclusive.Step Unit) := [.setDebug true, .lock, .render]
    let off : List (Exclusive.Step Unit) := [.lock, .setDebug false, .render]
    let reading : ReadWrite.Step Unit := .acquire .forReading
    let b := Mutex.Script.backend
    let r := ReadWrite.Script.raw
    (mutex.run b 0 on).2.state.wire.log.length = 1 ∧
      (mutex.run b 0 off).2.state.wire.log.length = 0 ∧
      (raw.run r 0 [.setDebug true, reading]).2.system.state.log.length = 1 ∧
      (raw.run r 0 [reading]).2.system.state.log.length = 0 ∧
      (mutex.run b 0 on).2.hush = (mutex.run b 0 off).2.hush ∧
      List.Forall₂ (SeenAlike ReadWrite.Session.hush Eq)
        (raw.course r 0 [.setDebug true, reading]) (raw.course r 0 [reading]) := by
  intro mutex raw on off reading b r
  have both := unseen (α := Unit) (β := Unit) b r 0
  refine ⟨by decide, by decide, by decide, by decide, ?_, ?_⟩
  · exact (both.1 on off mutex mutex rfl rfl).2
  · exact (both.2 [.setDebug true, reading] [reading] raw raw rfl rfl).1

end Debugging

end Interlock
