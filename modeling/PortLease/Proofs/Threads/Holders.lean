import Mathlib.Algebra.Order.BigOperators.Group.Finset
import PortLease.Proofs.Threads.Ledger

namespace PortLease.Threads

open Script (Hook terms holdersOf holdersOf_update holdersOf_release terms_update
  terms_release)
open Pool (lessHeld finished nextId_lend)

variable {policy : Policy} {pool : Pool Hook} {id : LeaseId} {port : Port} {n : Nat}
  {s s' : State n} {t : Fin n} {call : Call}

theorem holdersOf_eq {l : Lease Hook} (hl : pool.lease? id = some l) :
    holdersOf pool id = l.holders := by
  simp [holdersOf, hl]

theorem exists_of_holders (h : 0 < holdersOf pool id) : ∃ l, pool.lease? id = some l := by
  cases hl : pool.lease? id with
  | none => simp [holdersOf, hl] at h
  | some l => exact ⟨l, rfl⟩

theorem holdersOf_update_same {f : Lease Hook → Lease Hook}
    (hf : ∀ l, (f l).holders = l.holders) (x : LeaseId) :
    holdersOf (pool.update id f) x = holdersOf pool x := by
  simp only [holdersOf, Pool.lease?_update]
  split <;> simp [*, Function.comp_def]

theorem holdersOf_lend (x : LeaseId) :
    holdersOf (pool.lend port).2 x = holdersOf pool x + [pool.nextId].count x := by
  simp only [holdersOf, Pool.lease?_lend, List.count_singleton, beq_iff_eq]
  by_cases hx : x = pool.nextId
  · simp [hx, Pool.lease?_nextId]
  · simp [hx, Ne.symm hx]

theorem holdersOf_retain (hid : 0 < holdersOf pool id) (x : LeaseId) :
    holdersOf (pool.retain id) x = holdersOf pool x + [id].count x := by
  obtain ⟨l, hl⟩ := exists_of_holders hid
  rw [Pool.retain_eq, holdersOf_update hl, List.count_singleton]
  by_cases hx : x = id
  · simp [hx, holdersOf_eq hl]
  · simp [hx, Ne.symm hx]

theorem holdersOf_letGo (hid : 0 < holdersOf pool id) (x : LeaseId) :
    holdersOf (pool.letGo id).2 x + [id].count x = holdersOf pool x := by
  obtain ⟨l, hl⟩ := exists_of_holders hid
  have hpos : 0 < l.holders := holdersOf_eq hl ▸ hid
  have hgo : ∃ f : Lease Hook → Lease Hook, (pool.letGo id).2 = pool.update id f ∧
      (f l).holders = l.holders - 1 := by
    by_cases hlast : l.state = .held ∧ l.holders ≤ 1
    · exact ⟨_, by rw [Pool.letGo_last hl hlast.1 hlast.2], rfl⟩
    · have hmore : l.state = .held → 1 < l.holders := by
        intro hheld
        exact Nat.lt_of_not_le fun hle => hlast ⟨hheld, hle⟩
      exact ⟨_, by rw [Pool.letGo_more hl hmore], rfl⟩
  obtain ⟨f, hpool, hf⟩ := hgo
  rw [hpool, holdersOf_update hl, List.count_singleton, hf]
  by_cases hx : x = id
  · subst hx
    simp only [if_true, BEq.rfl, holdersOf_eq hl]
    omega
  · simp [hx, Ne.symm hx]

theorem current?_holders (h : pool.current? port = some id) : 0 < holdersOf pool id := by
  obtain ⟨-, hany⟩ := Option.filter_eq_some_iff.mp h
  cases hl : pool.lease? id with
  | none => simp [hl] at hany
  | some l => simpa [hl, holdersOf_eq hl] using hany

theorem Section.holders (r : Section) (hdrop : ∀ x, r = .drop x → 0 < holdersOf pool x)
    (x : LeaseId) : holdersOf (r.pool pool) x + r.drops?.toList.count x =
      holdersOf pool x + ((r.next pool).filterMap drops?).count x := by
  cases r with
  | close id =>
    have hsame : holdersOf (pool.finish id .closed).2 x = holdersOf pool x := by
      cases hl : pool.lease? id with
      | none => simp [Pool.finish, hl]
      | some l =>
        by_cases hheld : l.state = .held
        · rw [Pool.finish_held hl hheld]
          exact holdersOf_update_same (f := finished .closed) (fun _ => rfl) x
        · rw [Pool.finish_over hl hheld]
    simpa [Section.pool, Section.next, drops?] using hsame
  | drop id => simpa [Section.pool, Section.next, drops?] using holdersOf_letGo (hdrop id rfl) x
  | release id port => simp [Section.pool, Section.next, drops?, holdersOf_release]
  | current port =>
    cases hcurrent : pool.current? port with
    | none => simp [Section.pool, Section.next, drops?, hcurrent]
    | some id =>
      simpa [Section.pool, Section.next, drops?, hcurrent] using
        holdersOf_retain (current?_holders hcurrent) x

theorem Section.held_of_held (r : Section) {x : LeaseId} {p : Port}
    (hx : terms (r.pool pool) x = some (p, .held)) : terms pool x = some (p, .held) := by
  cases r.effect pool with
  | quiet hquiet => rwa [hquiet.terms] at hx
  | ends hl hheld hpool hport hover =>
    rw [hpool, terms_update hl] at hx
    split at hx
    · exact absurd (congrArg Prod.snd (Option.some.inj hx)) hover
    · exact hx
  | releases hr =>
    subst hr
    rwa [Section.pool, terms_release] at hx

theorem letGo_held (hx : terms (pool.letGo id).2 id = some (port, .held)) :
    1 < holdersOf pool id := by
  have hold : terms pool id = some (port, .held) := Section.held_of_held (.drop id) hx
  obtain ⟨l, hl, heq⟩ := Option.map_eq_some_iff.mp hold
  obtain ⟨-, hheld⟩ := Prod.mk.inj heq
  rw [holdersOf_eq hl]
  apply Nat.lt_of_not_le
  intro hlast
  rw [Pool.letGo_last hl hheld hlast, terms_update hl, if_pos rfl] at hx
  cases hx

theorem Section.held_pos (r : Section) (hdrop : ∀ x, r = .drop x → 0 < holdersOf pool x)
    (hpos : ∀ x p, terms pool x = some (p, .held) → 0 < holdersOf pool x) (x : LeaseId) (p : Port)
    (hx : terms (r.pool pool) x = some (p, .held)) : 0 < holdersOf (r.pool pool) x := by
  have hbalance := r.holders hdrop x
  have hbefore := hpos x p (r.held_of_held hx)
  by_cases hr : r = .drop x
  · subst hr
    have hmore := letGo_held hx
    have hone : (Section.drop x).drops?.toList.count x = 1 := by simp [drops?]
    omega
  · have hnone : r.drops?.toList.count x = 0 := by
      cases r with
      | drop id =>
        have hne : id ≠ x := fun h => hr (h ▸ rfl)
        simp [drops?, hne]
      | _ => rfl
    omega

structure Held (s : State n) : Prop where
  count : ∀ x, holdersOf s.pool x = s.hands.count x + ∑ t, (s.calls t).refs.count x
  pos : ∀ x p, terms s.pool x = some (p, .held) → 0 < holdersOf s.pool x
  known : ∀ t, ∀ x ∈ (s.calls t).keeps, x < s.pool.nextId

theorem Held.empty : Held ({} : State n) where
  count x := by simp [holdersOf, Pool.lease?, Pool.empty, Call.refs]
  pos x p h := by simp [terms, Pool.lease?, Pool.empty] at h
  known t x h := by simp [Call.keeps] at h

theorem sum_update {α : Type} (f : α → Nat) (calls : Fin n → α) (t : Fin n) (call : α) :
    ∑ u, f (Function.update calls t call u) + f (calls t) = ∑ u, f (calls u) + f call := by
  rw [← Finset.add_sum_erase _ _ (Finset.mem_univ t), ← Finset.add_sum_erase _ _ (Finset.mem_univ t),
    Function.update_self]
  have hothers : ∑ u ∈ Finset.univ.erase t, f (Function.update calls t call u) =
      ∑ u ∈ Finset.univ.erase t, f (calls u) := by
    apply Finset.sum_congr rfl
    intro u hu
    rw [Function.update_of_ne (Finset.ne_of_mem_erase hu)]
  omega

theorem sum_refs_update (calls : Fin n → Call) (t : Fin n) (call : Call) (x : LeaseId) :
    ∑ u, (Function.update calls t call u).refs.count x + (calls t).refs.count x =
      ∑ u, (calls u).refs.count x + call.refs.count x :=
  sum_update (fun call => call.refs.count x) calls t call

theorem refs_le (s : State n) (t : Fin n) (x : LeaseId) :
    (s.calls t).refs.count x ≤ ∑ u, (s.calls u).refs.count x :=
  Finset.single_le_sum (f := fun u => (s.calls u).refs.count x) (fun _ _ => Nat.zero_le _)
    (Finset.mem_univ t)

theorem Held.carried (h : Held s) {x : LeaseId} (hx : x ∈ (s.calls t).refs) :
    0 < holdersOf s.pool x := by
  have hcount := h.count x
  have hle := refs_le s t x
  have hone := List.count_pos_iff.mpr hx
  omega

theorem Held.inHand (h : Held s) {x : LeaseId} (hx : x ∈ s.hands) : 0 < holdersOf s.pool x := by
  have hcount := h.count x
  have hone := List.count_pos_iff.mpr hx
  omega

theorem lt_of_holders (h : 0 < holdersOf pool id) : id < pool.nextId := by
  obtain ⟨l, hl⟩ := exists_of_holders h
  exact Pool.lease?_lt hl

section Step

variable {answers : Answers} {o : Outcome}

theorem Call.holders (ho : call.step policy answers pool = o)
    (hcarried : ∀ x ∈ call.refs, 0 < holdersOf pool x) (x : LeaseId) :
    holdersOf o.pool x + call.refs.count x =
      holdersOf pool x + (o.call.refs ++ o.given).count x := by
  cases ho ▸ call.act policy answers pool with
  | pass hpool _ hrefs _ _ => rw [hpool, hrefs.count_eq]
  | claim _ hpool _ hrefs _ _ =>
    rw [hpool, hrefs.count_eq, holdersOf_lend, List.count_cons (l := call.refs),
      List.count_singleton]
    omega
  | @run first todo task hcall hrun =>
    subst hcall hrun
    have hdrop (y : LeaseId) (hy : first = .drop y) : 0 < holdersOf pool y := by
      subst hy
      exact hcarried y List.mem_cons_self
    have hbalance := first.holders hdrop x
    have hcons : (first :: todo).filterMap Section.drops? =
        first.drops?.toList ++ todo.filterMap Section.drops? := by
      cases first <;> rfl
    simp only [Call.refs, hcons, List.filterMap_append, List.count_append, List.append_nil]
    omega

theorem Call.held_pos (ho : call.step policy answers pool = o)
    (hcarried : ∀ x ∈ call.refs, 0 < holdersOf pool x)
    (hpos : ∀ x p, terms pool x = some (p, .held) → 0 < holdersOf pool x) (x : LeaseId) (p : Port)
    (hx : terms o.pool x = some (p, .held)) : 0 < holdersOf o.pool x := by
  cases ho ▸ call.act policy answers pool with
  | pass hpool _ _ _ _ =>
    rw [hpool] at hx ⊢
    exact hpos x p hx
  | claim _ hpool _ _ _ _ =>
    rw [hpool, terms_lend] at hx
    rw [hpool, holdersOf_lend]
    split at hx
    · rename_i hnew
      rw [hnew, List.count_singleton_self]
      exact Nat.succ_pos _
    · exact Nat.add_pos_left (hpos x p hx) _
  | @run first todo task hcall hrun =>
    subst hcall hrun
    have hdrop (y : LeaseId) (hy : first = .drop y) : 0 < holdersOf pool y := by
      subst hy
      exact hcarried y List.mem_cons_self
    exact first.held_pos hdrop hpos x p hx

theorem nextId_step (ho : call.step policy answers pool = o) : pool.nextId ≤ o.pool.nextId := by
  cases ho ▸ call.act policy answers pool with
  | pass hpool _ _ _ _ => rw [hpool]
  | claim _ hpool _ _ _ _ =>
    rw [hpool, nextId_lend]
    exact Nat.le_succ _
  | @run first todo task hcall hrun =>
    subst hrun
    exact Nat.le_of_eq (nextId_section pool first).symm

theorem Held.step (h : Held s) (policy : Policy) (answers : Answers) (t : Fin n) :
    Held (s.step policy answers t) := by
  rw [State.step]
  generalize ho : (s.calls t).step policy answers s.pool = o
  have hcarried (x : LeaseId) (hx : x ∈ (s.calls t).refs) : 0 < holdersOf s.pool x := h.carried hx
  constructor
  · intro x
    have hbalance := Call.holders ho hcarried x
    have hsum := sum_refs_update s.calls t o.call x
    have hcount := h.count x
    simp only [State.after, List.count_append] at hbalance ⊢
    omega
  · exact Call.held_pos ho hcarried h.pos
  · intro u x hx
    have hmore := nextId_step ho
    simp only [State.after] at hx ⊢
    by_cases hu : u = t
    · subst hu
      rw [Function.update_self] at hx
      obtain hold | ⟨-, hlt, -⟩ := Call.keeps_step policy answers s.pool _ ho
        (List.mem_append_left _ hx)
      · exact Nat.lt_of_lt_of_le (h.known u x hold) hmore
      · exact hlt
    · rw [Function.update_of_ne hu] at hx
      exact Nat.lt_of_lt_of_le (h.known u x hx) hmore

end Step

theorem Opens.refs {hands hands' : List LeaseId} (h : Opens hands call hands') (x : LeaseId) :
    hands'.count x + call.refs.count x = hands.count x := by
  cases h with
  | @drop id hid =>
    have hrefs : (Call.drop id).refs = [id] := rfl
    rw [hrefs, Nat.add_comm, ← List.count_append]
    exact (List.perm_cons_erase hid).symm.count_eq x
  | reserveMany number start =>
    unfold Call.reserveMany
    split <;> rfl
  | _ => rfl

theorem Opens.keeps {hands hands' : List LeaseId} (h : Opens hands call hands') {x : LeaseId}
    (hx : x ∈ call.keeps) : x ∈ hands := by
  cases h with
  | @close id hid =>
    obtain rfl := List.mem_singleton.mp hx
    exact hid
  | reserveMany number start =>
    unfold Call.reserveMany at hx
    split at hx <;> cases hx
  | _ => cases hx

theorem Opens.hands {hands hands' : List LeaseId} (h : Opens hands call hands') {x : LeaseId}
    (hx : x ∈ hands') : x ∈ hands := by
  cases h with
  | drop hid => exact List.mem_of_mem_erase hx
  | _ => exact hx

theorem Held.begin (h : Held s) {hands : List LeaseId} (hidle : s.calls t = .idle)
    (hopens : Opens s.hands call hands) : Held (s.begin t call hands) where
  count x := by
    have hcount := h.count x
    have hopen := hopens.refs x
    have hsum := sum_refs_update s.calls t call x
    have hnone : (s.calls t).refs.count x = 0 := by rw [hidle]; rfl
    simp only [State.begin]
    omega
  pos := h.pos
  known u x hx := by
    simp only [State.begin] at hx ⊢
    by_cases hu : u = t
    · subst hu
      rw [Function.update_self] at hx
      exact lt_of_holders (h.inHand (hopens.keeps hx))
    · rw [Function.update_of_ne hu] at hx
      exact h.known u x hx

theorem Held.clone (h : Held s) (hid : id ∈ s.hands) : Held (s.clone id) where
  count x := by
    have hcount := h.count x
    simp only [State.clone, holdersOf_retain (h.inHand hid), List.count_cons (l := s.hands),
      List.count_singleton]
    omega
  pos x p hx := by
    simp only [State.clone] at hx ⊢
    have hquiet : Quiet s.pool (s.pool.retain id) := .retain id
    rw [hquiet.terms] at hx
    rw [holdersOf_retain (h.inHand hid)]
    exact Nat.add_pos_left (h.pos x p hx) _
  known u x hx := by
    have hquiet : Quiet s.pool (s.pool.retain id) := .retain id
    simp only [State.clone] at hx ⊢
    rw [hquiet.nextId]
    exact h.known u x hx

theorem holdersOf_addHook (id : LeaseId) (hook : Hook) (x : LeaseId) :
    holdersOf (pool.addHook id hook).2 x = holdersOf pool x := by
  cases hl : pool.lease? id with
  | none => rw [Pool.addHook, hl]
  | some l =>
    by_cases hheld : l.state = .held
    · rw [Pool.addHook_held hl hheld]
      exact holdersOf_update_same (f := fun l => { l with hooks := hook :: l.hooks }) (fun _ => rfl) x
    · rw [Pool.addHook_over hl hheld]

theorem Held.onClose (h : Held s) (id : LeaseId) (hook : Hook) : Held (s.onClose id hook) := by
  have hquiet : Quiet s.pool (s.pool.addHook id hook).2 := .addHook id hook
  constructor
  · intro x
    simp only [State.onClose, holdersOf_addHook]
    exact h.count x
  · intro x p hx
    simp only [State.onClose, holdersOf_addHook, hquiet.terms] at hx ⊢
    exact h.pos x p hx
  · intro u x hx
    simp only [State.onClose, hquiet.nextId] at hx ⊢
    exact h.known u x hx

theorem Reachable.held (h : Reachable policy s) : Held s := by
  induction h with
  | refl => exact .empty
  | tail _ hmove ih =>
    cases hmove with
    | begin hidle hopens => exact ih.begin hidle hopens
    | step t answers => exact ih.step policy answers t
    | clone hid => exact ih.clone hid
    | onClose _ hook => exact ih.onClose _ hook

end PortLease.Threads
