import Mathlib.Logic.Function.Iterate
import Mathlib.Logic.Relation
import PortLease.Script.Machine

namespace PortLease.Script

namespace Machine

def redirect (m : Machine) (todo : List Action) : Machine :=
  match m.stack with
  | [] => m.start todo
  | .body _ current :: rest => { m with stack := .body todo current :: rest }
  | .ending current _ :: rest => { m with stack := .body todo current :: rest }
  | _ => m

theorem redirect_pool (m : Machine) (todo : List Action) : (m.redirect todo).pool = m.pool := by
  unfold redirect
  split <;> rfl

theorem redirect_trace (m : Machine) (todo : List Action) : (m.redirect todo).trace = m.trace := by
  unfold redirect
  split <;> rfl

end Machine

variable {setting : Setting} {m m' : Machine}

inductive Move (setting : Setting) : Machine → Machine → Prop
  | step (m : Machine) : Move setting m (m.step setting)
  | redirect (m : Machine) (todo : List Action) : Move setting m (m.redirect todo)

abbrev Leads (setting : Setting) : Machine → Machine → Prop := Relation.ReflTransGen (Move setting)

def Setting.lone : Setting where
  policy := { excluded := ⟨32768, 60999⟩ }
  world := ⟨fun _ => Port.lowest, fun _ _ => true⟩
  table _ := ⟨fun _ => ⟨.ok [], []⟩, true⟩

def Reachable (setting : Setting) (m : Machine) : Prop := Leads setting {} m

theorem Reachable.fresh : Reachable setting {} := .refl

theorem Reachable.leads (h : Reachable setting m) (hl : Leads setting m m') :
    Reachable setting m' := Relation.ReflTransGen.trans h hl

theorem Reachable.step (h : Reachable setting m) : Reachable setting (m.step setting) :=
  Relation.ReflTransGen.tail h (.step m)

theorem Reachable.redirect (h : Reachable setting m) (todo : List Action) :
    Reachable setting (m.redirect todo) := Relation.ReflTransGen.tail h (.redirect m todo)

theorem Reachable.start (h : Reachable setting m) (hs : m.stack = []) (actions : List Action) :
    Reachable setting (m.start actions) := by
  have hr := h.redirect actions
  rwa [Machine.redirect, hs] at hr

theorem Reachable.run (h : Reachable setting m) (limit : Nat) :
    Reachable setting (m.run setting limit) := by
  induction limit generalizing m with
  | zero => exact h
  | succ limit ih =>
    unfold Machine.run
    split
    · exact h
    · exact ih h.step

theorem Reachable.invariant {P : Machine → Prop} (h : Reachable setting m) (hfresh : P {})
    (hmove : ∀ m m', P m → Move setting m m' → P m') : P m := by
  induction h with
  | refl => exact hfresh
  | tail _ hm ih => exact hmove _ _ ih hm

namespace Machine

theorem run_eq_iterate (n : Nat) : m.run setting n = (step setting)^[n] m := by
  induction n generalizing m with
  | zero => rfl
  | succ n ih =>
    rw [run, Function.iterate_succ_apply]
    split
    · rename_i hempty
      have hidle : m.step setting = m := by
        rw [step, List.isEmpty_iff.mp hempty]
      rw [hidle, Function.iterate_fixed hidle]
    · exact ih

theorem logAll_eq (records : List LogRecord) :
    m.logAll records = { m with trace := (records.map Event.log).reverse ++ m.trace } := by
  induction records generalizing m with
  | nil => rfl
  | cons record records ih =>
    rw [logAll, List.foldl_cons, ← logAll, ih]
    simp [log, emit]

theorem join_eq (course : Pool.Course Hook) : m.join course =
    { m with
      pool := course.pool, asked := course.asked, trace := course.log.map Event.log ++ m.trace } := by
  simp [join, logAll_eq]

end Machine

end PortLease.Script
