import PortLease.Proofs.Script.Bare
import PortLease.Proofs.Script.CloseResult
import PortLease.Settings

/-!
Two runs of the same programs that differ in what the port table says, or in whether it is asked, show
the same: each is the run of the bare machine, which stands still while a port is checked.
-/

namespace PortLease.Script

variable {setting setting' : Setting} {m m' : Machine}

def Frame.isCheck : Frame → Bool
  | .check .. => true
  | _ => false

namespace Machine

def isChecking (m : Machine) : Bool :=
  match m.stack with
  | .check .. :: _ | .body .. :: .check .. :: _ | .ending .. :: .check .. :: _ => true
  | _ => false

def skip (m : Machine) : Machine :=
  match m.stack with
  | .check port _ failures :: rest => ({ m with stack := rest } : Machine).settle port failures
  | .body _ _ :: .check port _ failures :: rest =>
    ({ m with stack := rest } : Machine).settle port failures
  | .ending _ _ :: .check port _ failures :: rest =>
    ({ m with stack := rest } : Machine).settle port failures
  | _ => m

def bare (m : Machine) : Machine := m.skip.plain

end Machine

/-- What programs do, by all they can see: whoever is in control goes on as before, or with other
actions. -/
abbrev Program := Machine → Option (List Action)

def Machine.heed (program : Program) (m : Machine) : Machine :=
  if m.isChecking then m else (program m.bare).elim m m.redirect

def play (setting : Setting) (program : Program) : Nat → Machine
  | 0 => {}
  | n + 1 => ((play setting program n).heed program).step setting

structure View where
  taken : PortSet
  registry : Std.TreeMap Port LeaseId
  leases : Array (Port × LeaseState × Nat)
  slots : Std.TreeMap Slot LeaseId
  failing : Option Failure
  outcome : Option Failure
  events : List Event

def failing : List Frame → Option Failure
  | .ending _ failure :: _ => failure
  | _ => none

def Machine.view (m : Machine) : View where
  taken := m.pool.taken
  registry := m.pool.registry
  leases := m.pool.leases.map fun l => (l.port, l.state, l.holders)
  slots := m.slots
  failing := failing m.skip.stack
  outcome := m.outcome
  events := m.trace.filter Event.isVisible

/-- A run shows these views in this order, each for one step or several. -/
def Shows (run : Nat → Machine) (views : Nat → View) : Prop :=
  ∃ f : Nat → Nat, Monotone f ∧ f.Surjective ∧ ∀ n, (run n).view = views (f n)

/-- Settings that differ only in the port table, which does not act, and in the check. -/
structure SameButCheck (setting setting' : Setting) : Prop where
  excluded : setting.policy.excluded = setting'.policy.excluded
  probeBind : setting.policy.probeBind = setting'.policy.probeBind
  world : setting.world = setting'.world
  reaction : setting.reaction = []
  reaction' : setting'.reaction = []

def SameButVerify (program program' : Program) : Prop :=
  ∀ m, (program m).map bareAll = (program' m).map bareAll

namespace Machine

inductive Phase : List Frame → Prop
  | between {stack : List Frame} (h : ∀ f ∈ stack, f.isCheck = false) : Phase stack
  | asked {port : Port} {query : Nat} {failures : List String} {rest : List Frame}
      (h : ∀ f ∈ rest, f.isCheck = false) :
      Phase (.body [] none :: .check port query failures :: rest)
  | acted {port : Port} {query : Nat} {failures : List String} {rest : List Frame}
      (h : ∀ f ∈ rest, f.isCheck = false) :
      Phase (.ending none none :: .check port query failures :: rest)
  | answers {port : Port} {query : Nat} {failures : List String} {rest : List Frame}
      (h : ∀ f ∈ rest, f.isCheck = false) : Phase (.check port query failures :: rest)

theorem isChecking_between (h : ∀ f ∈ m.stack, f.isCheck = false) : m.isChecking = false := by
  unfold isChecking
  split <;> simp_all [Frame.isCheck]

theorem skip_between (h : ∀ f ∈ m.stack, f.isCheck = false) : m.skip = m := by
  unfold skip
  split <;> simp_all [Frame.isCheck]

def remaining (m : Machine) : Nat :=
  match m.stack with
  | .body .. :: .check .. :: _ => 3
  | .ending .. :: .check .. :: _ => 2
  | .check .. :: _ => 1
  | _ => 0

theorem remaining_between (h : ∀ f ∈ m.stack, f.isCheck = false) : m.remaining = 0 := by
  unfold remaining
  split <;> simp_all [Frame.isCheck]

theorem settled_isCheck {f : Frame} {rest : List Frame} (h : ∀ g ∈ rest, g.isCheck = false) :
    ∀ g ∈ settled f rest, g.isCheck = false := by
  intro g hg
  unfold settled at hg
  split at hg
  · split at hg
    · exact h g hg
    · obtain rfl | hg := List.mem_cons.mp hg
      · rfl
      · exact h g (List.mem_cons_of_mem _ hg)
  · exact h g hg

theorem between_deed (hd : Deed setting m m') (h : ∀ f ∈ m.stack, f.isCheck = false) :
    (∀ f ∈ m'.stack, f.isCheck = false) ∨ m.asks setting := by
  have hplain {f : Frame} (hf : f.isPlain) : f.isCheck = false := by cases f <;> first | rfl | cases hf
  have hcode {f : Frame} (hf : f.isCode) : f.isCheck = false := by cases f <;> first | rfl | cases hf
  have hrest {f : Frame} {rest : List Frame} (hs : m.stack = f :: rest) :
      ∀ g ∈ rest, g.isCheck = false := fun g hg => h g (hs ▸ List.mem_cons_of_mem _ hg)
  have htop {f f' : Frame} {rest : List Frame} (hs : m.stack = f :: rest) (hf' : f'.isCheck = false) :
      ∀ g ∈ f' :: rest, g.isCheck = false := List.forall_mem_cons.mpr ⟨hf', hrest hs⟩
  have hpush {f f' g : Frame} {rest : List Frame} (hs : m.stack = f :: rest)
      (hf' : f'.isCheck = false) (hg : g.isCheck = false) :
      ∀ x ∈ g :: f' :: rest, x.isCheck = false := List.forall_mem_cons.mpr ⟨hg, htop hs hf'⟩
  cases hd with
  | idle => exact .inl h
  | pass _ hs _ hf' | exhaust _ hs _ hf' => exact .inl (htop hs (hcode hf'))
  | grant _ hs _ hf' | share _ hs _ hf' => exact .inl (hpush hs (hcode hf') rfl)
  | lessen hs _ hf' | stored hs _ hf' => exact .inl (htop hs (hplain hf'))
  | ended hs _ hf' => exact .inl (hpush hs (hplain hf') rfl)
  | register hs => exact .inl (htop hs rfl)
  | late hs | hookStarted hs => exact .inl (hpush hs rfl rfl)
  | handedOver hs | bodyEnded hs => exact .inl (hrest hs)
  | hookEnded hs =>
    refine .inl (List.forall_mem_cons.mpr ⟨rfl, ?_⟩)
    exact fun g hg => hrest hs g (List.mem_cons_of_mem _ hg)
  | queried hs hcheck => exact .inr ⟨_, _, _, _, _, hs, hcheck⟩
  | settle _ hs => exact .inl (settled_isCheck (hrest hs))

theorem heed_between (program : Program) (h : ∀ f ∈ m.stack, f.isCheck = false) :
    ∀ f ∈ (m.heed program).stack, f.isCheck = false := by
  rw [heed, isChecking_between h]
  simp only [Bool.false_eq_true, if_false]
  cases program m.bare with
  | none => exact h
  | some todo =>
    simp only [Option.elim_some, redirect]
    split
    · exact List.forall_mem_cons.mpr ⟨rfl, h⟩
    · rename_i hs
      rw [hs] at h
      exact List.forall_mem_cons.mpr ⟨rfl, (List.forall_mem_cons.mp h).2⟩
    · rename_i hs
      rw [hs] at h
      exact List.forall_mem_cons.mpr ⟨rfl, (List.forall_mem_cons.mp h).2⟩
    · exact h

def heedBare (program : Program) (b : Machine) : Machine :=
  ((program b).map bareAll).elim b b.redirect

theorem plain_redirect (m : Machine) (todo : List Action) :
    (m.redirect todo).plain = m.plain.redirect (bareAll todo) := by
  obtain ⟨pool, slots, stack, asked, queries, hooks, outcome, trace⟩ := m
  cases stack with
  | nil => rfl
  | cons f rest => cases f <;> rfl

theorem plain_heed (program : Program) (h : ∀ f ∈ m.stack, f.isCheck = false) :
    (m.heed program).plain = m.plain.heedBare program := by
  have hbare : m.bare = m.plain := by rw [bare, skip_between h]
  rw [heed, isChecking_between h, heedBare, hbare]
  simp only [Bool.false_eq_true, if_false]
  cases program m.plain with
  | none => rfl
  | some todo => exact plain_redirect m todo

theorem bare_step_between (hreaction : setting.reaction = []) (hsound : m.Sound setting.policy)
    (h : ∀ f ∈ m.stack, f.isCheck = false) :
    (m.step setting).bare = (m.plain.step setting.bare).plain ∧ Phase (m.step setting).stack := by
  by_cases hasks : m.asks setting
  · obtain ⟨lease, port, running, failures, rest, hs, hcheck⟩ := hasks
    have hrest : ∀ f ∈ rest, f.isCheck = false := fun f hf => h f (hs ▸ List.mem_cons_of_mem _ hf)
    have hplain : m.plain.stack =
        .hooks lease port running [] failures (.close false) :: rest.map Frame.bare := by
      rw [plain_stack, hs, List.map_cons]
      rfl
    constructor
    · have hleft : (m.step setting).skip = ({ m with
          stack := rest, queries := m.queries + 1
          trace := .queried (some port) :: m.trace } : Machine).settle port failures := by
        simp [skip, step, hs, finishHooks, hcheck, push, emit]
      have hright : m.plain.step setting.bare =
          ({ m.plain with stack := rest.map Frame.bare } : Machine).settle port failures := by
        simp only [step, hplain, finishHooks, Bool.false_and, Bool.false_eq_true, if_false]
      rw [bare, hleft, hright, plain_settle, plain_settle]
      simp [-List.filter_filter, Event.isVisible]
    · simp only [step, hs, finishHooks, hcheck, Bool.and_self, if_true, hreaction]
      exact .asked hrest
  · have hbetween := (between_deed (step_deed hsound) h).resolve_right hasks
    have hcheck (port : Port) (query : Nat) (failures : List String) (rest : List Frame) :
        m.stack ≠ .check port query failures :: rest := by
      intro hs
      have hfalse := h _ (hs ▸ List.mem_cons_self)
      cases hfalse
    rw [bare, skip_between hbetween]
    exact ⟨plain_step m hasks hcheck, .between hbetween⟩

theorem bare_step_checking (hphase : Phase m.stack) (hchecking : m.isChecking) :
    (m.step setting).bare = m.bare ∧ Phase (m.step setting).stack ∧
      (m.step setting).remaining < m.remaining := by
  obtain ⟨pool, slots, stack, asked, queries, hooks, outcome, trace⟩ := m
  cases hphase with
  | between h =>
    rw [isChecking_between h] at hchecking
    cases hchecking
  | asked h => exact ⟨rfl, .acted h, Nat.lt_succ_self _⟩
  | acted h => exact ⟨rfl, .answers h, Nat.lt_succ_self _⟩
  | @answers port query failures rest h =>
    have hsettle (m : Machine) : m.settle port failures =
        { m with stack := settled (.check port query failures) m.stack } := settle_eq rfl
    have hstep (first second : List LogRecord) (m : Machine) (hs : m.stack = rest) :
        ∀ f ∈ (((m.logAll first).logAll second).settle port failures).stack, f.isCheck = false := by
      rw [hsettle]
      simp only [logAll_eq, hs]
      exact settled_isCheck h
    have hbetween := hstep ((setting.table query).query (some port)).log
      (verdict port (setting.table query).conclusive ((setting.table query).query (some port)).sockets)
      ⟨pool, slots, rest, asked, queries, hooks, outcome, trace⟩ rfl
    refine ⟨?_, .between hbetween, ?_⟩
    · rw [bare, bare, step, skip_between hbetween]
      simp [skip]
    · rw [step, remaining_between hbetween]
      exact Nat.zero_lt_one

theorem Phase.between_of (h : Phase m.stack) (hchecking : m.isChecking = false) :
    ∀ f ∈ m.stack, f.isCheck = false := by
  obtain ⟨pool, slots, stack, asked, queries, hooks, outcome, trace⟩ := m
  cases h with
  | between h => exact h
  | asked | acted | answers => cases hchecking

end Machine

open Machine (Phase)

theorem Reachable.heed (h : Reachable setting m) (program : Program) :
    Reachable setting (m.heed program) := by
  unfold Machine.heed
  split
  · exact h
  · cases program m.bare with
    | none => exact h
    | some todo => exact h.redirect todo

theorem play_reachable (setting : Setting) (program : Program) (n : Nat) :
    Reachable setting (play setting program n) := by
  induction n with
  | zero => exact .fresh
  | succ n ih => exact (ih.heed program).step

def bareRun (setting : Setting) (program : Program) : Nat → Machine
  | 0 => {}
  | n + 1 => (((bareRun setting program n).heedBare program).step setting.bare).plain

def pace (setting : Setting) (program : Program) : Nat → Nat
  | 0 => 0
  | n + 1 =>
    if (play setting program n).isChecking then pace setting program n
    else pace setting program n + 1

section Pace

variable {program : Program} {n : Nat}

theorem play_bare (hreaction : setting.reaction = []) (n : Nat) :
    Phase (play setting program n).stack ∧
      (play setting program n).bare = bareRun setting program (pace setting program n) := by
  induction n with
  | zero =>
    refine ⟨.between (fun f hf => by cases hf), ?_⟩
    simp [play, pace, bareRun, Machine.bare, Machine.skip, Machine.plain, Pool.map, Pool.empty]
  | succ n ih =>
    obtain ⟨hphase, hbare⟩ := ih
    have hreach := play_reachable setting program n
    rw [play, pace]
    by_cases hchecking : (play setting program n).isChecking
    · have hheed : (play setting program n).heed program = play setting program n := by
        rw [Machine.heed, if_pos hchecking]
      obtain ⟨hsame, hnext, -⟩ := @Machine.bare_step_checking setting _ hphase hchecking
      rw [hheed, if_pos hchecking]
      exact ⟨hnext, hsame.trans hbare⟩
    · have hfalse := Bool.eq_false_iff.mpr hchecking
      have hbetween := hphase.between_of hfalse
      have hplain : (play setting program n).plain = bareRun setting program (pace setting program n) := by
        rw [← hbare, Machine.bare, Machine.skip_between hbetween]
      obtain ⟨hstep, hnext⟩ := Machine.bare_step_between hreaction (hreach.heed program).sound
        (Machine.heed_between program hbetween)
      rw [if_neg hchecking]
      refine ⟨hnext, hstep.trans ?_⟩
      rw [Machine.plain_heed program hbetween, hplain]
      rfl

theorem pace_mono : Monotone (pace setting program) := by
  refine monotone_nat_of_le_succ fun n => ?_
  rw [pace]
  split <;> omega

theorem exists_between (hreaction : setting.reaction = []) (n : Nat) :
    ∃ n', (play setting program n').isChecking = false ∧
      pace setting program n' = pace setting program n := by
  -- by how many steps the check that is under way still takes
  induction hr : (play setting program n).remaining using Nat.strong_induction_on generalizing n with
  | _ r ih =>
    by_cases hchecking : (play setting program n).isChecking
    · have hstep : play setting program (n + 1) = (play setting program n).step setting := by
        rw [play, Machine.heed, if_pos hchecking]
      have hpace : pace setting program (n + 1) = pace setting program n := by
        rw [pace, if_pos hchecking]
      have hphase := (@play_bare setting program hreaction n).1
      obtain ⟨-, -, hless⟩ := @Machine.bare_step_checking setting _ hphase hchecking
      obtain ⟨n', hn', heq⟩ := ih _ (by rw [← hr, hstep]; exact hless) (n + 1) rfl
      exact ⟨n', hn', heq.trans hpace⟩
    · exact ⟨n, Bool.eq_false_iff.mpr hchecking, rfl⟩

theorem pace_surjective (hreaction : setting.reaction = []) : (pace setting program).Surjective := by
  intro k
  induction k with
  | zero => exact ⟨0, rfl⟩
  | succ k ih =>
    obtain ⟨n, rfl⟩ := ih
    obtain ⟨n', hn', heq⟩ := exists_between hreaction n
    refine ⟨n' + 1, ?_⟩
    rw [pace, hn', ← heq]
    rfl

end Pace

def Machine.seen (b : Machine) : View where
  taken := b.pool.taken
  registry := b.pool.registry
  leases := b.pool.leases.map fun l => (l.port, l.state, l.holders)
  slots := b.slots
  failing := failing b.stack
  outcome := b.outcome
  events := b.trace.filter Event.isVisible

theorem Machine.skip_eq (m : Machine) : m.skip = { m with stack := m.skip.stack } := by
  have hsettle (m : Machine) (port : Port) (failures : List String) : m.settle port failures =
      { m with stack := settled (.check port 0 failures) m.stack } := settle_eq rfl
  unfold skip
  split
  · rw [hsettle]
  · rw [hsettle]
  · rw [hsettle]
  · rfl

theorem Machine.view_eq (m : Machine) : m.view = m.bare.seen := by
  have hfailing (stack : List Frame) : failing (stack.map Frame.bare) = failing stack := by
    cases stack with
    | nil => rfl
    | cons f rest => cases f <;> rfl
  rw [bare, skip_eq]
  simp [view, seen, hfailing, Pool.map, Lease.map, Function.comp_def]

theorem play_shows {program : Program} (hreaction : setting.reaction = []) :
    Shows (play setting program) fun n => (bareRun setting program n).seen := by
  refine ⟨pace setting program, pace_mono, pace_surjective hreaction, fun n => ?_⟩
  rw [Machine.view_eq, (play_bare hreaction n).2]

theorem bareRun_congr {program program' : Program} (hs : SameButCheck setting setting')
    (hp : SameButVerify program program') :
    bareRun setting program = bareRun setting' program' := by
  have hbare : setting.bare = setting'.bare := by
    simp [Setting.bare, hs.excluded, hs.probeBind, hs.world]
  funext n
  induction n with
  | zero => rfl
  | succ n ih => rw [bareRun, bareRun, ih, hbare, Machine.heedBare, Machine.heedBare, hp]

theorem verification_is_advisory {program program' : Program} (hs : SameButCheck setting setting')
    (hp : SameButVerify program program') :
    (∃ views, Shows (play setting program) views ∧ Shows (play setting' program') views) ∧
      ∀ any m, Reachable any m → ClosesOrTells any m := by
  refine ⟨⟨_, play_shows hs.reaction, ?_⟩, fun any m h => closes_or_tells h⟩
  rw [bareRun_congr hs hp]
  exact play_shows hs.reaction'

def Setting.ofSettings (settings : Settings) (answer : TableAnswer) : Setting where
  policy := settings.policy ⟨32768, 60999⟩
  world := Setting.lone.world
  table _ := { query := fun _ => answer }

def Program.once (verify : Bool) : Program := fun m =>
  if m.pool.leases.isEmpty then some [.reserve 5000 (some "a"), .close "a" verify] else none

def Setting.failing : Setting := .ofSettings {} { sockets := .error (.malformedOutput "?") }

def Setting.disabled : Setting := .ofSettings { disableReleaseCheck := true } { sockets := .ok [] }

theorem verification_is_advisory_once :
    SameButCheck .failing .disabled ∧ SameButVerify (.once true) (.once false) ∧
      (∃ views, Shows (play .failing (.once true)) views ∧ Shows (play .disabled (.once false)) views) ∧
      (∀ any m, Reachable any m → ClosesOrTells any m) ∧
      (play .failing (.once true) 12).queries = 1 ∧ (play .disabled (.once false) 12).queries = 0 := by
  have hs : SameButCheck .failing .disabled := ⟨rfl, rfl, rfl, rfl, rfl⟩
  have hp : SameButVerify (.once true) (.once false) := by
    intro m
    unfold Program.once
    split <;> rfl
  obtain ⟨hviews, hcloses⟩ := verification_is_advisory hs hp
  exact ⟨hs, hp, hviews, hcloses, by decide +kernel, by decide +kernel⟩

end PortLease.Script
