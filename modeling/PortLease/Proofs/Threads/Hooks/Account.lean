import Mathlib.Algebra.BigOperators.Group.Finset.Piecewise
import PortLease.Proofs.Threads.Hooks.Plain

/-!
Accounts of what calls have in hand. What a thread has noted as gained it still carries with its call or
has noted as spent. And over all threads, a hook that was passed waits with its lease, or is carried by
one call, or has run.
-/

namespace PortLease.Threads.Hooks

open Script (Hook Failure hooksOf hooksOf_update hooksOf_release)
open Pool (finished lessHeld)

variable {policy : Policy} {failure : Option Failure} {pool : Pool Hook} {n : Nat}
  {s s' : State n} {t : Fin n} {call : Call} {o : Outcome} {note : Option Note}

section Account

variable {β : Type} [BEq β] {gained spent : Note → Option β} {carried : Call → List β}

structure Account (gained spent : Note → Option β) (carried : Call → List β) : Prop where
  idle : carried .idle = []
  opens : ∀ n (s : State n) call note, Opens s call note → ∀ x,
    (note.bind gained).toList.count x =
      (carried call).count x + (note.bind spent).toList.count x
  act : ∀ policy failure pool call o, Act policy failure pool call o → ∀ x,
    (carried call).count x + (o.note.bind gained).toList.count x =
      (carried o.call).count x + (o.note.bind spent).toList.count x

theorem Account.balance (ha : Account gained spent carried) (h : Reachable policy s) (t : Fin n)
    (x : β) : (s.own t gained).count x = (carried (s.calls t)).count x + (s.own t spent).count x := by
  have hafter {s : State n} {u : Fin n} {o : Outcome}
      (hs : (s.own t gained).count x = (carried (s.calls t)).count x + (s.own t spent).count x)
      (ho : (carried (s.calls u)).count x + (o.note.bind gained).toList.count x =
        (carried o.call).count x + (o.note.bind spent).toList.count x) :
      ((s.after u o).own t gained).count x = (carried ((s.after u o).calls t)).count x +
        ((s.after u o).own t spent).count x := by
    rw [State.own_after, State.own_after]
    simp only [State.after]
    by_cases ht : t = u
    · subst ht
      simp only [if_true, Function.update_self, List.count_append]
      omega
    · simpa only [ht, if_false, Function.update_of_ne ht] using hs
  induction h with
  | refl => simp [State.own, ha.idle]
  | @tail s _ _ hmove ih =>
    cases hmove with
    | begin hidle hopens =>
      apply hafter ih
      rw [hidle, ha.idle, List.count_nil, Nat.zero_add]
      exact ha.opens _ _ _ _ hopens x
    | step u failure => exact hafter ih (ha.act _ _ _ _ _ (Call.act policy failure s.pool _) x)
    | clone _ => exact ih

theorem count_all (s : State n) (f : Note → Option β) (x : β) :
    (s.all f).count x = ∑ t, (s.own t f).count x := by
  unfold State.all State.own
  induction s.trace with
  | nil => simp
  | cons event trace ih =>
    have hown (t : Fin n) : ((event :: trace).filterMap fun event =>
        if event.1 = t then f event.2 else none).count x =
          (if t = event.1 then (f event.2).toList.count x else 0) + (trace.filterMap fun event =>
            if event.1 = t then f event.2 else none).count x := by
      rw [filterMap_cons_toList, List.count_append]
      by_cases ht : t = event.1
      · rw [if_pos ht.symm, if_pos ht]
      · rw [if_neg (Ne.symm ht), if_neg ht]
        rfl
    rw [Finset.sum_congr rfl fun t _ => hown t, Finset.sum_add_distrib, Finset.sum_ite_eq', ← ih,
      if_pos (Finset.mem_univ _), filterMap_cons_toList, List.count_append]

theorem Account.total (ha : Account gained spent carried) (h : Reachable policy s) (x : β) :
    (s.all gained).count x = ∑ t, (carried (s.calls t)).count x + (s.all spent).count x := by
  rw [count_all, count_all, ← Finset.sum_add_distrib]
  exact Finset.sum_congr rfl fun t _ => ha.balance h t x

theorem Account.idle_balance (ha : Account gained spent carried) (h : Reachable policy s)
    (hidle : s.calls t = .idle) (x : β) : (s.own t gained).count x = (s.own t spent).count x := by
  rw [ha.balance h, hidle, ha.idle, List.count_nil, Nat.zero_add]

end Account

@[simp] theorem Round.round?_back (round : Round) (current : Option LeaseId) :
    (round.back current).round? = some round := by
  cases current <;> rfl

namespace Call

def ended (call : Call) : List LeaseId := (call.round?.map Round.ended).getD []

def closes : Call → List LeaseId
  | .close id _ => [id]
  | call => call.ended

def releases : Call → List LeaseId
  | .release round => [round.lease]
  | _ => []

def passing : Call → List (LeaseId × Nat)
  | .onClose id _ hook => [(id, hook.number)]
  | _ => []

end Call

theorem closes_account : Account Note.closing? Note.returned? Call.closes where
  idle := rfl
  opens n s call note hopens x := by
    cases hopens <;> simp [Call.closes, Call.ended, Call.round?, Note.closing?, Note.returned?]
  act policy failure pool call o hact x := by
    cases hact with
    | ran round hook current => cases current <;> rfl
    | @answered round _ | checked round =>
      obtain ⟨hended, hanswer⟩ | ⟨hended, records, hanswer⟩ := round.answer_eq <;>
        simp [Call.closes, Call.ended, Call.round?, hended, hanswer, Note.closing?, Note.returned?]
    | _ =>
      simp [Call.closes, Call.ended, Call.round?, Round.ended_close, Round.ended_late,
        Note.closing?, Note.returned?]

theorem ended_account : Account Note.ended? Note.performed? Call.ended where
  idle := rfl
  opens n s call note hopens x := by
    cases hopens <;> simp [Call.ended, Call.round?, Note.ended?, Note.performed?]
  act policy failure pool call o hact x := by
    cases hact with
    | ran round hook current => cases current <;> rfl
    | @answered round _ | checked round =>
      obtain ⟨hended, hanswer⟩ | ⟨hended, records, hanswer⟩ := round.answer_eq <;>
        simp [Call.ended, Call.round?, hended, hanswer, Note.ended?, Note.performed?]
    | _ =>
      simp [Call.ended, Call.round?, Round.ended_close, Round.ended_late, Note.ended?,
        Note.performed?]

theorem releases_account : Account Note.ended? Note.released? Call.releases where
  idle := rfl
  opens n s call note hopens x := by
    cases hopens <;> simp [Call.releases, Note.ended?, Note.released?]
  act policy failure pool call o hact x := by
    cases hact with
    | ran round hook current => cases current <;> rfl
    | @answered round _ | checked round =>
      obtain ⟨-, hanswer⟩ | ⟨-, records, hanswer⟩ := round.answer_eq <;>
        simp [Call.releases, hanswer, Note.ended?, Note.released?]
    | _ => simp [Call.releases, Note.ended?, Note.released?]

theorem passing_account : Account Note.passed? Note.placed? Call.passing where
  idle := rfl
  opens n s call note hopens x := by
    cases hopens <;> simp [Call.passing, Note.passed?, Note.placed?]
  act policy failure pool call o hact x := by
    cases hact with
    | ran round hook current => cases current <;> rfl
    | @answered round _ | checked round =>
      obtain ⟨-, hanswer⟩ | ⟨-, records, hanswer⟩ := round.answer_eq <;>
        simp [Call.passing, hanswer, Note.passed?, Note.placed?]
    | _ => simp [Call.passing, Note.passed?, Note.placed?]

def labelled (id : LeaseId) (hooks : List Hook) : List (LeaseId × Nat) :=
  hooks.map fun hook => (id, hook.number)

theorem count_labelled {id : LeaseId} {x : LeaseId × Nat} (hx : x.1 ≠ id) (hooks : List Hook) :
    (labelled id hooks).count x = 0 := by
  apply List.count_eq_zero_of_not_mem
  intro hmem
  obtain ⟨hook, -, rfl⟩ := List.mem_map.mp hmem
  exact hx rfl

def Round.waiting (round : Round) : List (LeaseId × Nat) := labelled round.lease round.todo

def Call.waiting : Call → List (LeaseId × Nat)
  | .onClose id _ hook => [(id, hook.number)]
  | .running round hook _ => (round.lease, hook.number) :: round.waiting
  | .check _ => []
  | call => (call.round?.map Round.waiting).getD []

def stored (pool : Pool Hook) (id : LeaseId) : List (LeaseId × Nat) := labelled id (hooksOf pool id)

theorem hooksOf_eq {id : LeaseId} {l : Lease Hook} (hl : pool.lease? id = some l) :
    hooksOf pool id = l.hooks := by
  rw [hooksOf, hl]
  rfl

theorem Act.waiting (hact : Act policy failure pool call o)
    (hletGo : ∀ round other, call = .ending round other →
      pool.letGo other = (none, pool.update other lessHeld)) (x : LeaseId × Nat) :
    (stored o.pool x.1).count x + o.call.waiting.count x + (o.note.bind Note.ran?).toList.count x =
      (stored pool x.1).count x + call.waiting.count x := by
  cases hact with
  | reserved hcheck hclaim => simp [stored, hooksOf_lend, Call.waiting, Call.round?, Note.ran?]
  | @found port id number hid => simp [stored, Script.Keeps.retain.hooks, Call.waiting, Call.round?]
  | @ended id l verify hl hheld =>
    by_cases hx : x.1 = id
    · subst hx
      simp [stored, hooksOf_update hl, hooksOf_eq hl, finished, labelled, Call.waiting, Call.round?,
        Round.waiting, Note.ran?]
    · simp [stored, hooksOf_update hl, hx, count_labelled, Call.waiting, Call.round?, Round.waiting,
        Note.ran?]
  | @registered id l port hook hl hheld =>
    by_cases hx : x.1 = id
    · subst hx
      simp [stored, hooksOf_update hl, hooksOf_eq hl, labelled, List.count_cons, Call.waiting, Call.round?,
        Note.ran?]
    · have hne : ¬ (id, hook.number) = x := fun heq => hx (heq ▸ rfl)
      simp [stored, hooksOf_update hl, hx, hne, Call.waiting, Call.round?, Note.ran?]
  | released round => simp [stored, hooksOf_release, Call.waiting, Call.round?, Note.ran?]
  | @looked round hook todo htodo =>
    have hhooks : hooksOf (handed pool (pool.current? round.port)) x.1 = hooksOf pool x.1 := by
      cases pool.current? round.port with
      | none => rfl
      | some id => exact Script.Keeps.retain.hooks x.1
    simp [stored, hhooks, Call.waiting, Call.round?, Round.waiting, labelled, htodo, Note.ran?]
  | ending round other =>
    have hgo := hletGo round other rfl
    simp [hgo, stored, hooksOf_lessHeld, Call.waiting, Call.round?]
  | @answered round htodo =>
    obtain ⟨-, hanswer⟩ | ⟨-, records, hanswer⟩ := round.answer_eq <;>
      simp [hanswer, Call.waiting, Call.round?, Round.waiting, labelled, htodo, Note.ran?]
  | checked round =>
    obtain ⟨-, hanswer⟩ | ⟨-, records, hanswer⟩ := round.answer_eq <;>
      simp [hanswer, Call.waiting, Call.round?, Note.ran?]
  | ran round hook current =>
    cases current <;>
      simp [Call.waiting, Call.round?, Round.back, Round.ran, Round.waiting, List.count_cons,
        Nat.add_assoc, Note.ran?]
  | @queried round htodo =>
    simp [Call.waiting, Call.round?, Round.waiting, labelled, htodo, Note.ran?]
  | _ => simp [Call.waiting, Call.round?, Round.waiting, labelled, Note.ran?]

theorem Opens.waiting (h : Opens s call note) (x : LeaseId × Nat) :
    call.waiting.count x + (note.bind Note.ran?).toList.count x =
      (note.bind Note.passed?).toList.count x := by
  cases h <;> simp [Call.waiting, Call.round?, Note.passed?, Note.ran?]

theorem Reachable.conserved (h : Reachable policy s) (x : LeaseId × Nat) :
    (s.all Note.passed?).count x = (stored s.pool x.1).count x +
      ∑ t, (s.calls t).waiting.count x + (s.all Note.ran?).count x := by
  have hafter {s : State n} {t : Fin n} {o : Outcome}
      (hs : (s.all Note.passed?).count x = (stored s.pool x.1).count x +
        ∑ t, (s.calls t).waiting.count x + (s.all Note.ran?).count x)
      (ho : (stored o.pool x.1).count x + o.call.waiting.count x +
          (o.note.bind Note.ran?).toList.count x =
        (stored s.pool x.1).count x + (s.calls t).waiting.count x +
          (o.note.bind Note.passed?).toList.count x) :
      ((s.after t o).all Note.passed?).count x = (stored (s.after t o).pool x.1).count x +
        ∑ u, ((s.after t o).calls u).waiting.count x + ((s.after t o).all Note.ran?).count x := by
    have hsum := sum_update (fun call => call.waiting.count x) s.calls t o.call
    rw [State.all_after, State.all_after, List.count_append, List.count_append]
    simp only [State.after]
    omega
  induction h with
  | refl =>
    simp [State.all, stored, labelled, hooksOf, Pool.lease?, Pool.empty, Call.waiting, Call.round?]
  | @tail s _ hs hmove ih =>
    cases hmove with
    | @begin t call note hidle hopens =>
      apply hafter ih
      have hopen := hopens.waiting x
      have hnone : (s.calls t).waiting = [] := by
        rw [hidle]
        rfl
      simp only [hnone, List.count_nil]
      omega
    | step t failure =>
      apply hafter ih
      have hact := Call.act policy failure s.pool (s.calls t)
      rw [hact.passed?]
      apply hact.waiting
      intro round other hcall
      exact Reachable.letGo hs hcall
    | @clone id hid =>
      have hstored : stored (s.pool.retain id) x.1 = stored s.pool x.1 := by
        rw [stored, Script.Keeps.retain.hooks, stored]
      simp only [State.clone, hstored]
      exact ih

structure Numbered (s : State n) : Prop where
  descending : ((s.all Note.passed?).map Prod.snd).Pairwise (· > ·)
  lt : ∀ x ∈ s.all Note.passed?, x.2 < s.trace.length

theorem Numbered.quiet (h : Numbered s) (hnote : o.note.bind Note.passed? = none) :
    Numbered (s.after t o) := by
  have hsame : (s.after t o).all Note.passed? = s.all Note.passed? := by
    rw [State.all_after, hnote]
    rfl
  constructor
  · rw [hsame]
    exact h.descending
  · intro x hx
    rw [hsame] at hx
    rw [State.after, List.length_append]
    exact Nat.lt_add_left _ (h.lt x hx)

theorem Reachable.numbered (h : Reachable policy s) : Numbered s := by
  induction h with
  | refl => exact ⟨.nil, nofun⟩
  | @tail s _ _ hmove ih =>
    cases hmove with
    | @begin t call note hidle hopens =>
      cases hopens with
      | @onClose id port hid hport name body =>
        have hall : (s.begin t (.onClose id port ⟨s.trace.length, name, body⟩)
            (some (.passed id s.trace.length))).all Note.passed? =
              (id, s.trace.length) :: s.all Note.passed? := rfl
        constructor
        · rw [hall]
          apply List.Pairwise.cons _ ih.descending
          intro number hmem
          obtain ⟨x, hx, rfl⟩ := List.mem_map.mp hmem
          exact ih.lt x hx
        · intro x hx
          rw [hall] at hx
          obtain rfl | hx := List.mem_cons.mp hx
          · exact Nat.lt_succ_self _
          · exact Nat.lt_succ_of_lt (ih.lt x hx)
      | _ => exact ih.quiet rfl
    | step t failure => exact ih.quiet (Call.act policy failure s.pool (s.calls t)).passed?
    | clone _ => exact ⟨ih.descending, ih.lt⟩

end PortLease.Threads.Hooks
