import PortLease.Proofs.Script.Run
import PortLease.Proofs.Threads.Hooks.Act

namespace PortLease.Threads.Hooks

open Script (Machine Frame Setting Hook Failure Action)

variable {policy : Policy} {setting : Setting} {failure : Option Failure} {m : Machine}
  {rest : List Frame} {round : Round} {id : LeaseId} {l : Lease Hook}

def Round.frame (round : Round) (last : Nat) : Frame :=
  .hooks round.lease round.port last round.todo round.failures round.occasion

theorem reserve_alone {pool pool' : Pool Hook} {number : Int} {lease : Option LeaseId}
    {record : LogRecord} (h : pool.reserve policy number = .ok (lease, pool', record)) :
    ∃ note, (Call.reserve number).step policy failure pool = ⟨pool', .idle, lease.toList, note⟩ := by
  unfold Pool.reserve at h
  cases hcheck : policy.check number with
  | error refusal =>
    rw [hcheck] at h
    cases h
  | ok port =>
    simp only [hcheck] at h
    split at h
    · rename_i htaken
      cases h
      exact ⟨none, by simp [Call.step, hcheck, Pool.claim?, htaken]⟩
    · rename_i hfree
      cases h
      refine ⟨some (.claimed (pool.lend port).1 port), ?_⟩
      simp [Call.step, hcheck, Pool.claim?, hfree]

theorem find_alone (number : Int) (slot : Option Script.Slot) :
    (Call.find number).step policy failure m.pool = ⟨(m.find number slot).pool, .idle,
      (m.pool.find? number).toList, none⟩ := by
  simp only [Call.step, Machine.find]
  cases m.pool.find? number <;> rfl

theorem close_held_alone (hl : m.pool.lease? id = some l) (hheld : l.state = .held)
    (verify : Bool) : ∃ pool round,
      (Call.close id verify).step policy failure m.pool = ⟨pool, .release round, [], some (.ended id)⟩ ∧
      (Call.release round).step policy failure pool =
        ⟨(m.close id verify).pool, .next round, [], some (.released id l.port)⟩ ∧
      (m.close id verify).stack = round.frame 0 :: m.stack := by
  refine ⟨m.pool.update id (Pool.finished .closed), ⟨id, l.port, .close verify, l.hooks, []⟩, ?_, ?_, ?_⟩
  · simp only [Call.step, Pool.finish_held hl hheld]
  · simp only [Call.step, Machine.close, Pool.close_held hl hheld]
    rfl
  · simp only [Machine.close, Pool.close_held hl hheld]
    rfl

theorem close_over_alone (hover : ∀ l, m.pool.lease? id = some l → l.state ≠ .held) (verify : Bool) :
    m.close id verify = m ∧ (Call.close id verify).step policy failure m.pool =
      ⟨m.pool, .idle, [], some (.returned id false (.ok ()))⟩ := by
  constructor
  · simp only [Machine.close, Pool.close, Pool.finish_settled hover]
  · simp only [Call.step, Pool.finish_settled hover]

theorem onClose_held_alone (hl : m.pool.lease? id = some l) (hheld : l.state = .held)
    (name : String) (body : List Action) :
    (Call.onClose id l.port ⟨m.hooks, name, body⟩).step policy failure m.pool =
        ⟨(m.onClose id name body).pool, .idle, [], some (.registered id m.hooks)⟩ ∧
      (m.onClose id name body).stack = m.stack := by
  constructor
  · simp only [Call.step, Machine.onClose, Pool.addHook_held hl hheld]
  · simp only [Machine.onClose, Pool.addHook_held hl hheld]

theorem onClose_over_alone (hl : m.pool.lease? id = some l) (hover : l.state ≠ .held)
    (name : String) (body : List Action) : ∃ round,
      (Call.onClose id l.port ⟨m.hooks, name, body⟩).step policy failure m.pool =
        ⟨(m.onClose id name body).pool, .next round, [], some (.late id m.hooks)⟩ ∧
      (m.onClose id name body).stack = round.frame 0 :: m.stack := by
  have hsettled (k : Lease Hook) (hk : m.pool.lease? id = some k) : k.state ≠ .held := by
    rw [hl] at hk
    obtain rfl := Option.some.inj hk
    exact hover
  refine ⟨⟨id, l.port, .late, [⟨m.hooks, name, body⟩], []⟩, ?_, ?_⟩
  · simp only [Call.step, Machine.onClose, Pool.addHook_settled hsettled, hl]
    rfl
  · simp only [Machine.onClose, Pool.addHook_settled hsettled, hl]
    rfl

theorem look_alone {hook : Hook} {todo : List Hook} {last : Nat} (htodo : round.todo = hook :: todo)
    (hstack : m.stack = round.frame last :: rest) : ∃ current,
      (Call.next round).step policy failure m.pool =
        ⟨(m.step setting).pool, .running { round with todo } hook current, [],
          some (.looked round.lease hook.number round.occasion current)⟩ ∧
      (m.step setting).stack =
        .body hook.body current :: ({ round with todo } : Round).frame hook.number :: rest ∧
      (m.step setting).trace = .hookStarted round.lease hook.number hook.name round.port current
        m.pool.takenCount :: m.trace := by
  refine ⟨m.pool.current? round.port, ?_, ?_, ?_⟩ <;>
    simp only [Call.step, Machine.step, hstack, Round.frame, htodo, Machine.startHook, Machine.push,
      Machine.emit] <;>
    cases m.pool.current? round.port <;> rfl

theorem ran_alone {hook : Hook}
    (hstack : m.stack = .ending none failure :: round.frame hook.number :: rest) :
    (Call.running round hook none).step policy failure m.pool =
        ⟨(m.step setting).pool, .next (round.ran failure), [],
          some (.ran round.lease hook.number none failure)⟩ ∧
      (m.step setting).stack = (round.ran failure).frame hook.number :: rest ∧
      (m.step setting).trace = .hookEnded round.lease hook.number failure :: m.trace := by
  refine ⟨?_, ?_, ?_⟩ <;>
    simp only [Call.step, Machine.step, hstack, Round.frame, Machine.endBody, Machine.emit] <;> rfl

theorem ran_current_alone {hook : Hook} {other : LeaseId}
    (hstack : m.stack = .ending (some other) failure :: round.frame hook.number :: rest)
    (hmore : (m.pool.letGo other).1 = none) :
    (Call.running round hook (some other)).step policy failure m.pool =
        ⟨m.pool, .ending (round.ran failure) other, [],
          some (.ran round.lease hook.number (some other) failure)⟩ ∧
      (Call.ending (round.ran failure) other).step policy failure m.pool =
        ⟨((m.step setting).step setting).pool, .next (round.ran failure), [], none⟩ ∧
      ((m.step setting).step setting).stack = (round.ran failure).frame hook.number :: rest := by
  have hgo : m.pool.letGo other = (none, (m.pool.letGo other).2) := Prod.ext hmore rfl
  have hfirst : m.step setting = { m with
      pool := (m.pool.letGo other).2
      stack := .ending none failure :: round.frame hook.number :: rest } := by
    simp only [Machine.step, hstack, Machine.letGo, Machine.push]
    rw [hgo]
  rw [hfirst]
  exact ⟨rfl, rfl, rfl⟩

theorem step_spent {last : Nat} (htodo : round.todo = [])
    (hstack : m.stack = round.frame last :: rest) : m.step setting =
      Machine.finishHooks { m with stack := rest } setting round.port round.failures
        round.occasion := by
  simp only [Machine.step, hstack, Round.frame, htodo]

theorem query_alone {last : Nat} (htodo : round.todo = [])
    (hverifies : round.verifies setting.policy = true) (hstack : m.stack = round.frame last :: rest) :
    (Call.next round).step setting.policy failure m.pool =
        ⟨(m.step setting).pool, .check round, [], some (.queried round.port)⟩ ∧
      (m.step setting).stack = .body setting.reaction none ::
        .check round.port m.queries round.failures :: rest ∧
      (m.step setting).trace = .queried (some round.port) :: m.trace := by
  rw [step_spent htodo hstack]
  simp only [Call.step, htodo, hverifies, if_true]
  unfold Round.verifies at hverifies
  cases hoccasion : round.occasion with
  | close verify =>
    rw [hoccasion] at hverifies
    simp only [Machine.finishHooks, hverifies, if_true]
    exact ⟨rfl, rfl, rfl⟩
  | reclaim =>
    rw [hoccasion] at hverifies
    cases hverifies
  | late =>
    rw [hoccasion] at hverifies
    cases hverifies

def told (m : Machine) : Note → Machine
  | .returned _ _ (.error e) => m.raise (.error e)
  | .logged records => m.logAll records
  | _ => m

theorem told_pool (m : Machine) (note : Note) : (told m note).pool = m.pool := by
  unfold told
  split
  · unfold Machine.raise
    split <;> rfl
  · rw [Machine.logAll_eq]
  · rfl

theorem settle_eq_told (m : Machine) (id : LeaseId) (port : Port) (failures : List String) :
    m.settle port failures = told m (.returned id true (closeResult port failures)) := by
  unfold Machine.settle closeResult
  split <;> rfl

theorem answer_alone {last : Nat} (htodo : round.todo = [])
    (hverifies : round.verifies setting.policy = false) (hstack : m.stack = round.frame last :: rest) :
    (Call.next round).step setting.policy failure m.pool =
        ⟨(m.step setting).pool, .idle, [], some round.answer⟩ ∧
      m.step setting = told { m with stack := rest } round.answer := by
  have htold : m.step setting = told { m with stack := rest } round.answer := by
    rw [step_spent htodo hstack]
    unfold Round.verifies at hverifies
    unfold Round.answer
    cases hoccasion : round.occasion with
    | close verify =>
      rw [hoccasion] at hverifies
      simp only [Machine.finishHooks, hverifies, Bool.false_eq_true, if_false]
      exact settle_eq_told _ round.lease round.port round.failures
    | reclaim => rfl
    | late => rfl
  refine ⟨?_, htold⟩
  rw [htold, told_pool]
  simp only [Call.step, htodo, hverifies, Bool.false_eq_true, if_false]

theorem check_alone {query : Nat} (hoccasion : round.ended ≠ [])
    (hstack : m.stack = .check round.port query round.failures :: rest) :
    (Call.check round).step policy failure m.pool =
        ⟨(m.step setting).pool, .idle, [], some round.answer⟩ ∧
      ∃ records, m.step setting = told (Machine.logAll { m with stack := rest } records) round.answer := by
  have htold : ∃ records, m.step setting =
      told (Machine.logAll { m with stack := rest } records) round.answer := by
    obtain ⟨-, hanswer⟩ | ⟨hnone, -⟩ := round.answer_eq
    · let table := setting.table query
      let answer := table.query (some round.port)
      refine ⟨answer.log ++ Script.verdict round.port table.conclusive answer.sockets, ?_⟩
      simp only [Machine.step, hstack]
      rw [hanswer, settle_eq_told _ round.lease, Machine.logAll, Machine.logAll, Machine.logAll,
        List.foldl_append]
    · exact absurd hnone hoccasion
  obtain ⟨records, hrecords⟩ := htold
  refine ⟨?_, records, hrecords⟩
  rw [hrecords, told_pool, Machine.logAll_eq]
  rfl

end PortLease.Threads.Hooks
