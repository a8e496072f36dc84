import PortLease.Proofs.Threads.Own

namespace PortLease.Threads

open Script (Hook terms)
open Pool (registry_lend registry_release contains_release)

variable {policy : Policy} {answers : Answers} {pool pool' : Pool Hook} {id x : LeaseId}
  {port p : Port} {n : Nat} {s s' : State n} {t : Fin n} {call : Call}

/-- The lease was claimed with the port, and no release section has run for it. -/
def State.Leased (s : State n) (id : LeaseId) (port : Port) : Prop :=
  (id, port) ∈ s.claims ∧ id ∉ s.releases

structure Freed (port : Port) (pool pool' : Pool Hook) : Prop where
  taken : ∀ p, pool'.taken.contains p = if port = p then false else pool.taken.contains p
  registry : ∀ p, pool'.registry[p]? = if port = p then none else pool.registry[p]?
  leases : pool'.leases = pool.leases

structure Exclusive (policy : Policy) (s : State n) : Prop where
  ports : ∀ x y p, s.Leased x p → s.Leased y p → x = y
  ids : (s.claims.map Prod.fst).Nodup ∧ s.claims.length = s.pool.leases.size
  numbers : s.claims.length < 2 ^ 64 → (s.claims.map fun claim => UInt64.ofNat claim.1).Nodup
  release : ∀ answers t id port todo task, s.calls t = .run (.release id port :: todo) task →
    (id, port) ∈ s.claims ∧
      (s.pool.registry[port]? = some id ∧ Freed port s.pool (s.step policy answers t).pool ∨
        s.pool.registry[port]? ≠ some id ∧ (s.step policy answers t).pool = s.pool)
  loses : ∀ s', Move policy s s' → ∀ (p : Port) (x : LeaseId), s.pool.registry[p]? = some x →
    s'.pool.registry[p]? = some x ∨ s'.releases = x :: s.releases
  failed : ∀ s' t, Move policy s s' → s'.trace = (t, .failed) :: s.trace →
    (∀ x ∈ s'.own t, ∀ p : Port, s'.pool.registry[p]? ≠ some x) ∧ ∀ x ∈ s'.freed t, x ∈ s'.own t
  idle : (∀ t, s.calls t = .idle) →
    ∀ p, s.pool.taken.contains p = true ↔ ∃ x ∈ s.hands, s.pool.Holds x p

theorem Ledger.ports (h : Ledger s) {y : LeaseId} (hx : s.Leased x p) (hy : s.Leased y p) :
    x = y := by
  have hnamed := (h.registry p x).mpr hx
  rw [(h.registry p y).mpr hy] at hnamed
  exact (Option.some.inj hnamed).symm

theorem Ledger.id_le (h : Ledger s) (hx : x ∈ s.claims.map Prod.fst) : x ≤ s.claims.length := by
  obtain ⟨⟨y, p⟩, hmem, rfl⟩ := List.mem_map.mp hx
  obtain ⟨state, hterms⟩ := (h.claims y p).mp hmem
  have hlt := terms_lt hterms
  rw [h.count] at hlt
  exact Nat.le_of_lt_succ hlt

theorem Ledger.nodup (h : Ledger s) : (s.claims.map Prod.fst).Nodup :=
  h.ids.imp fun hlt => (Nat.ne_of_lt hlt).symm

theorem Ledger.numbers (h : Ledger s) (hfew : s.claims.length < 2 ^ 64) :
    (s.claims.map fun claim => UInt64.ofNat claim.1).Nodup := by
  have hmap : (s.claims.map fun claim => UInt64.ofNat claim.1) =
      (s.claims.map Prod.fst).map UInt64.ofNat := by
    rw [List.map_map]
    rfl
  rw [hmap]
  apply h.nodup.map_on
  intro x hx y hy heq
  have hsmall {z : LeaseId} (hz : z ∈ s.claims.map Prod.fst) : (UInt64.ofNat z).toNat = z := by
    rw [UInt64.toNat_ofNat']
    exact Nat.mod_eq_of_lt (Nat.lt_of_le_of_lt (h.id_le hz) hfew)
  rw [← hsmall hx, ← hsmall hy, heq]

theorem freed_release (h : pool.registry[port]? = some id) :
    Freed port pool (pool.release id port) where
  taken p := by simp [contains_release, h]
  registry p := by simp [registry_release, h]
  leases := by rw [Pool.release, if_pos h]

theorem Ledger.release_step (h : Ledger s) {todo : List Section} {task : Task}
    (hcall : s.calls t = .run (.release id port :: todo) task) : (id, port) ∈ s.claims ∧
      (s.pool.registry[port]? = some id ∧ Freed port s.pool (s.step policy answers t).pool ∨
        s.pool.registry[port]? ≠ some id ∧ (s.step policy answers t).pool = s.pool) := by
  have hpool : (s.step policy answers t).pool = s.pool.release id port := by
    rw [State.step, hcall]
    rfl
  have hpending : s.Pending id port := ⟨t, by rw [hcall]; exact List.mem_cons_self⟩
  obtain ⟨state, -, hterms⟩ := h.pending id port hpending
  refine ⟨(h.claims id port).mpr ⟨state, hterms⟩, ?_⟩
  rw [hpool]
  by_cases howns : s.pool.registry[port]? = some id
  · exact .inl ⟨howns, freed_release howns⟩
  · exact .inr ⟨howns, by rw [Pool.release, if_neg howns]⟩

theorem Ledger.loses (h : Ledger s) (hmove : Move policy s s')
    (hx : s.pool.registry[p]? = some x) :
    s'.pool.registry[p]? = some x ∨ s'.releases = x :: s.releases := by
  cases hmove.change with
  | quiet hpool => exact .inl (hpool.registry ▸ hx)
  | @claim port hfree hpool =>
    have hne : port ≠ p := by
      rintro rfl
      exact h.unnamed hfree x hx
    exact .inl (by rw [hpool, registry_lend, if_neg hne, hx])
  | finish _ _ hpool => exact .inl (by rw [hpool, Pool.registry_update, hx])
  | @release id port _ hpool _ hreleases =>
    by_cases hfreed : port = p ∧ s.pool.registry[port]? = some id
    · obtain ⟨rfl, hid⟩ := hfreed
      rw [hid] at hx
      exact .inr (Option.some.inj hx ▸ hreleases)
    · exact .inl (by rw [hpool, registry_release, if_neg hfreed, hx])

theorem failed_task {task : Task} (h : (task.step policy answers pool).note = some .failed) :
    task.step policy answers pool = ⟨pool, .idle, [], some .failed⟩ ∧ task.Scans ∧
      task.keeps = [] := by
  cases task with
  | done => cases h
  | search batch busy start =>
    simp only [Task.step] at h ⊢
    split at h
    · rename_i hfind
      cases batch with
      | none => exact ⟨by simp, trivial, rfl⟩
      | some batch => cases h
    · split at h
      · cases h
      · rw [note_gotten] at h
        cases h
  | rollback todo =>
    cases todo with
    | nil => exact ⟨rfl, trivial, rfl⟩
    | cons id todo => cases h

theorem failed_step (h : (call.step policy answers pool).note = some .failed) :
    call.step policy answers pool = ⟨pool, .idle, [], some .failed⟩ ∧ call.Scans ∧ call.keeps = [] ∧
      call.pending = [] := by
  cases call with
  | idle => cases h
  | reserve number =>
    simp only [Call.step] at h
    split at h
    · cases h
    · split at h <;> cases h
  | probe batch busy id port =>
    simp only [Call.step] at h
    split at h
    · rw [note_gotten] at h
      cases h
    · cases h
  | run todo task =>
    cases todo with
    | nil =>
      obtain ⟨hstep, htask, hkeeps⟩ := failed_task h
      exact ⟨hstep, htask, hkeeps, rfl⟩
    | cons first todo => cases first <;> cases h

theorem Move.failed (hmove : Move policy s s') (htrace : s'.trace = (t, .failed) :: s.trace) :
    ∃ answers, s' = s.step policy answers t ∧
      ((s.calls t).step policy answers s.pool).note = some .failed := by
  cases hmove with
  | begin => cases (List.cons.inj htrace).1
  | step u answers =>
    cases hnote : ((s.calls u).step policy answers s.pool).note with
    | none =>
      simp only [State.step, State.after, hnote] at htrace
      exact absurd htrace.symm (List.cons_ne_self _ _)
    | some note =>
      simp only [State.step, State.after, hnote] at htrace
      cases (List.cons.inj htrace).1
      exact ⟨answers, rfl, hnote⟩
  | clone => exact absurd htrace.symm (List.cons_ne_self _ _)
  | onClose => exact absurd htrace.symm (List.cons_ne_self _ _)

theorem Reachable.failed (h : Reachable policy s) (hmove : Move policy s s')
    (htrace : s'.trace = (t, .failed) :: s.trace) :
    (∀ x ∈ s'.own t, ∀ p : Port, s'.pool.registry[p]? ≠ some x) ∧
      ∀ x ∈ s'.freed t, x ∈ s'.own t := by
  have hledger : Ledger s' := Reachable.ledger (h.tail hmove)
  obtain ⟨answers, rfl, hnote⟩ := hmove.failed htrace
  obtain ⟨hstep, hscans, hkeeps, hpending⟩ := failed_step hnote
  have howned : Owned s t := by
    apply h.owned t
    intro hidle
    rw [hidle] at hscans
    exact hscans
  obtain ⟨hown, hfreed⟩ := own_after s t hstep
  rw [State.step, hstep] at hledger ⊢
  rw [hown, hfreed]
  constructor
  · intro x hx p hnamed
    have hgone : x ∈ s.releases := by
      obtain ⟨hkept, -⟩ | ⟨p, hp⟩ | hgone := howned.fate x hx
      · exact absurd hkept (hkeeps ▸ List.not_mem_nil)
      · exact absurd hp (hpending ▸ List.not_mem_nil)
      · exact hgone
    apply ((hledger.registry p x).mp hnamed).2
    rw [releases_after]
    exact hgone
  · cases howned.stage with
    | plain hcall _ => exact absurd hscans hcall
    | scan _ _ _ hfreed => exact hfreed

theorem Reachable.idle_bits (h : Reachable policy s) (hidle : ∀ t, s.calls t = .idle) (p : Port) :
    s.pool.taken.contains p = true ↔ ∃ x ∈ s.hands, s.pool.Holds x p := by
  have hledger : Ledger s := h.ledger
  have hheld : Held s := h.held
  rw [hledger.taken]
  constructor
  · rintro ⟨x, hx⟩
    obtain ⟨hclaim, hopen⟩ := (hledger.registry p x).mp hx
    obtain ⟨state, hterms⟩ := (hledger.claims x p).mp hclaim
    have hstate : state = .held := by
      by_contra hover
      obtain ⟨t, ht⟩ := hledger.leaving x p state hterms hover hopen
      rw [hidle t] at ht
      cases ht
    subst hstate
    have hpos := hheld.pos x p hterms
    have hcarried : ∑ t, (s.calls t).refs.count x = 0 :=
      Finset.sum_eq_zero fun t _ => by rw [hidle t]; rfl
    rw [hheld.count, hcarried] at hpos
    obtain ⟨l, hl, heq⟩ := Option.map_eq_some_iff.mp hterms
    obtain ⟨hport, hstate⟩ := Prod.mk.inj heq
    exact ⟨x, List.count_pos_iff.mp hpos, l, hl, hstate, hport⟩
  · rintro ⟨x, -, l, hl, hstate, rfl⟩
    have hterms := terms_eq hl
    have hopen : x ∉ s.releases := by
      intro hgone
      have hover : Over s.pool x := hledger.released x hgone
      exact hover.not_held (hterms.trans (by rw [hstate]))
    exact ⟨x, (hledger.registry _ _).mpr ⟨(hledger.claims _ _).mpr ⟨_, hterms⟩, hopen⟩⟩

theorem exclusive_leases (h : Reachable policy s) : Exclusive policy s where
  ports _ _ _ := h.ledger.ports
  ids := ⟨h.ledger.nodup, (Nat.succ.inj h.ledger.count).symm⟩
  numbers := h.ledger.numbers
  release _ _ _ _ _ _ := h.ledger.release_step
  loses _ hmove _ _ := h.ledger.loses hmove
  failed _ _ := h.failed
  idle := h.idle_bits

theorem Reachable.begin (h : Reachable policy s) {hands : List LeaseId} (hidle : s.calls t = .idle)
    (hopens : Opens s.hands call hands) : Reachable policy (s.begin t call hands) :=
  Relation.ReflTransGen.tail h (.begin hidle hopens)

theorem Reachable.step (h : Reachable policy s) (answers : Answers) (t : Fin n) :
    Reachable policy (s.step policy answers t) :=
  Relation.ReflTransGen.tail h (.step t answers)

def passedOn (policy : Policy) (answers : Answers) : State 2 :=
  let s := (({} : State 2).begin 0 (.reserve 8080) []).step policy answers 0
  let s := (s.begin 0 (.close 1) s.hands).step policy answers 0
  let s := (s.begin 1 (.reserve 8080) s.hands).step policy answers 1
  let s := s.step policy answers 0
  (s.begin 1 (.reserve 8080) s.hands).step policy answers 1

theorem exclusive_leases_passedOn : ∃ s : State 2, Reachable ⟨⟨32768, 60999⟩, true, true⟩ s ∧
    s.claims = [(2, 8080), (1, 8080)] ∧ s.releases = [1] ∧
    Exclusive ⟨⟨32768, 60999⟩, true, true⟩ s := by
  have hreach : Reachable ⟨⟨32768, 60999⟩, true, true⟩
      (passedOn ⟨⟨32768, 60999⟩, true, true⟩ ⟨1024, true⟩) := by
    unfold passedOn
    refine Reachable.step (Reachable.begin (Reachable.step (Reachable.step (Reachable.begin
      (Reachable.step (Reachable.begin (Reachable.step (Reachable.begin .refl ?_ ?_) _ _) ?_ ?_) _ _)
        ?_ ?_) _ _) _ _) ?_ ?_) _ _
    · rfl
    · exact .reserve 8080
    · decide +kernel
    · exact .close (by decide +kernel)
    · rfl
    · exact .reserve 8080
    · decide +kernel
    · exact .reserve 8080
  exact ⟨_, hreach, by decide +kernel, by decide +kernel, exclusive_leases hreach⟩

end PortLease.Threads
