import PortLease.Proofs.Pool.FirstFree
import PortLease.Proofs.Script.Occupancy

namespace PortLease.Script

open Pool (Course TakesFirst)

variable {setting : Setting} {m : Machine}

theorem any_port_takes_first (h : Reachable setting m) (scanStart : Nat → Port)
    (bindable : Port → Bool) :
    ∃ result after,
      m.course.reserveAny setting.policy (.steady scanStart bindable) = (result, after) ∧
        Course.Scans setting.policy (.steady scanStart bindable) .empty (scanStart m.asked.scans)
          { m.course with asked.scans := m.asked.scans + 1 } (result, after) ∧
        TakesFirst setting.policy bindable m.pool (scanStart m.asked.scans) result after.pool := by
  have hscans :=
    @Pool.reserveAny_scans Hook setting.policy (.steady scanStart bindable) m.course
  have htakes :=
    @Pool.reserveAny_takesFirst Hook setting.policy scanStart bindable m.course h.sound.pool
  rcases hany : m.course.reserveAny setting.policy (.steady scanStart bindable) with ⟨result, after⟩
  rw [hany] at hscans htakes
  exact ⟨result, after, rfl, hscans, htakes⟩

def Setting.narrow : Setting := { Setting.lone with policy := { excluded := ⟨1027, 65535⟩ } }

def Machine.oneTaken : Machine :=
  (({} : Machine).start [.reserve 1025 (some "a")]).run Setting.narrow 5

theorem any_port_takes_first_third :
    Reachable .narrow .oneTaken ∧
      (∃ result after,
        Machine.oneTaken.course.reserveAny Setting.narrow.policy
            (.steady (fun _ => 1024) fun p => p != 1024) = (result, after) ∧
          Course.Scans Setting.narrow.policy (.steady (fun _ => 1024) fun p => p != 1024) .empty 1024
            { Machine.oneTaken.course with asked.scans := Machine.oneTaken.asked.scans + 1 }
            (result, after) ∧
          TakesFirst Setting.narrow.policy (fun p => p != 1024) Machine.oneTaken.pool 1024 result
            after.pool) ∧
      (Machine.oneTaken.course.reserveAny Setting.narrow.policy
        (.steady (fun _ => 1024) fun p => p != 1024)).1.toOption = some 3 := by
  have h : Reachable .narrow .oneTaken := (Reachable.fresh.start rfl _).run 5
  exact ⟨h, any_port_takes_first h (fun _ => 1024) fun p => p != 1024, by decide +kernel⟩

end PortLease.Script
