import PortLease.Proofs.Threads.Change

/-!
The books of a shared pool. The registry names the leases that were claimed and not released since, each
for the port it was claimed with, and the bits are those of the registry. A lease that is over and has not
been released is pending with some thread.
-/

namespace PortLease.Threads

open Script (Hook terms terms_update terms_release)
open Pool (nextId_lend registry_lend registry_release contains_release)

variable {policy : Policy} {pool : Pool Hook} {id : LeaseId} {port : Port} {n : Nat}
  {s s' : State n}

theorem terms_eq {l : Lease Hook} (hl : pool.lease? id = some l) :
    terms pool id = some (l.port, l.state) := by
  rw [terms, hl]
  rfl

theorem terms_lt {t : Port × LeaseState} (h : terms pool id = some t) : id < pool.nextId := by
  obtain ⟨l, hl, -⟩ := Option.map_eq_some_iff.mp h
  exact Pool.lease?_lt hl

theorem terms_nextId : terms pool pool.nextId = none := by
  rw [terms, Pool.lease?_nextId]
  rfl

theorem terms_lend (x : LeaseId) : terms (pool.lend port).2 x =
    if x = pool.nextId then some (port, .held) else terms pool x := by
  simp only [terms, Pool.lease?_lend]
  split <;> rfl

def Over (pool : Pool Hook) (id : LeaseId) : Prop :=
  ∃ p, ∃ state ≠ .held, terms pool id = some (p, state)

theorem Over.same {pool' : Pool Hook} (h : Over pool id) (hterms : terms pool' id = terms pool id) :
    Over pool' id := by
  rwa [Over, hterms]

structure Ledger (s : State n) : Prop where
  count : s.pool.nextId = s.claims.length + 1
  ids : (s.claims.map Prod.fst).Pairwise (· > ·)
  claims : ∀ x p, (x, p) ∈ s.claims ↔ ∃ state, terms s.pool x = some (p, state)
  registry : ∀ p x, s.pool.registry[p]? = some x ↔ (x, p) ∈ s.claims ∧ x ∉ s.releases
  taken : ∀ p, s.pool.taken.contains p = true ↔ ∃ x, s.pool.registry[p]? = some x
  released : ∀ x ∈ s.releases, Over s.pool x
  pending : ∀ x p, s.Pending x p → ∃ state ≠ .held, terms s.pool x = some (p, state)
  leaving : ∀ x p state, terms s.pool x = some (p, state) → state ≠ .held → x ∉ s.releases →
    s.Pending x p

theorem Ledger.empty : Ledger ({} : State n) where
  count := rfl
  ids := .nil
  claims x p := by simp [State.claims, terms, Pool.lease?, Pool.empty]
  registry p x := by simp [State.claims, Pool.empty]
  taken p := by simp [Pool.empty, PortSet.contains_empty]
  released x h := by simp [State.releases] at h
  pending x p h := by simp [State.Pending, Call.pending] at h
  leaving x p state h := by simp [terms, Pool.lease?, Pool.empty] at h

theorem Ledger.quiet (h : Ledger s) (hpool : Quiet s.pool s'.pool)
    (hclaims : s'.claims = s.claims) (hreleases : s'.releases = s.releases)
    (hpending : ∀ x p, s'.Pending x p ↔ s.Pending x p) : Ledger s' where
  count := by rw [hpool.nextId, hclaims, h.count]
  ids := by rw [hclaims]; exact h.ids
  claims x p := by rw [hclaims, hpool.terms]; exact h.claims x p
  registry p x := by rw [hclaims, hreleases, hpool.registry]; exact h.registry p x
  taken p := by rw [hpool.taken, hpool.registry]; exact h.taken p
  released x hx := (h.released x (hreleases ▸ hx)).same (hpool.terms x)
  pending x p hx := by rw [hpool.terms]; exact h.pending x p ((hpending x p).mp hx)
  leaving x p state hx hstate hnot := by
    rw [hpool.terms] at hx
    rw [hreleases] at hnot
    exact (hpending x p).mpr (h.leaving x p state hx hstate hnot)

theorem Ledger.next_unclaimed (h : Ledger s) (p : Port) : (s.pool.nextId, p) ∉ s.claims := by
  intro hmem
  obtain ⟨state, hterms⟩ := (h.claims _ _).mp hmem
  rw [terms_nextId] at hterms
  cases hterms

theorem Ledger.next_unreleased (h : Ledger s) : s.pool.nextId ∉ s.releases := by
  intro hmem
  obtain ⟨p, state, -, hterms⟩ := h.released _ hmem
  rw [terms_nextId] at hterms
  cases hterms

theorem Ledger.unnamed (h : Ledger s) (hfree : s.pool.taken.contains port = false) (x : LeaseId) :
    s.pool.registry[port]? ≠ some x := by
  intro hname
  rw [(h.taken port).mpr ⟨x, hname⟩] at hfree
  cases hfree

theorem Ledger.claim (h : Ledger s) (hfree : s.pool.taken.contains port = false)
    (hpool : s'.pool = (s.pool.lend port).2) (hclaims : s'.claims = (s.pool.nextId, port) :: s.claims)
    (hreleases : s'.releases = s.releases) (hpending : ∀ x p, s'.Pending x p ↔ s.Pending x p) :
    Ledger s' := by
  have hknown {x : LeaseId} {t : Port × LeaseState} (hx : terms s.pool x = some t) :
      terms s'.pool x = some t := by
    rw [hpool, terms_lend, if_neg (Nat.ne_of_lt (terms_lt hx)), hx]
  constructor
  case count =>
    rw [hclaims, List.length_cons, ← h.count, hpool, nextId_lend]
  case ids =>
    rw [hclaims, List.map_cons]
    refine List.pairwise_cons.mpr ⟨?_, h.ids⟩
    intro x hx
    obtain ⟨⟨_, p⟩, hmem, rfl⟩ := List.mem_map.mp hx
    obtain ⟨state, hterms⟩ := (h.claims _ _).mp hmem
    exact terms_lt hterms
  case claims =>
    intro x p
    rw [hclaims, hpool, terms_lend, List.mem_cons]
    by_cases hx : x = s.pool.nextId
    · subst hx
      simp [h.next_unclaimed, eq_comm]
    · simpa [hx] using h.claims x p
  case registry =>
    intro p x
    rw [hclaims, hreleases, hpool, registry_lend, List.mem_cons]
    by_cases hp : port = p
    · subst hp
      by_cases hx : x = s.pool.nextId
      · simp [hx, h.next_unreleased]
      · have hno := mt (h.registry port x).mpr (h.unnamed hfree x)
        simpa [hx, Ne.symm hx] using hno
    · simpa [hp, Ne.symm hp] using h.registry p x
  case taken =>
    intro p
    have htaken : (s.pool.lend port).2.taken = s.pool.taken.insert port := rfl
    rw [hpool, htaken, PortSet.contains_insert, registry_lend]
    by_cases hp : port = p
    · simp [hp]
    · simpa [hp, Ne.symm hp] using h.taken p
  case released =>
    intro x hx
    obtain ⟨p, state, hstate, hterms⟩ := h.released x (hreleases ▸ hx)
    exact ⟨p, state, hstate, hknown hterms⟩
  case pending =>
    intro x p hx
    obtain ⟨state, hstate, hterms⟩ := h.pending x p ((hpending x p).mp hx)
    exact ⟨state, hstate, hknown hterms⟩
  case leaving =>
    intro x p state hx hstate hnot
    rw [hpool, terms_lend] at hx
    split at hx
    · cases hx
      exact absurd rfl hstate
    · exact (hpending x p).mpr (h.leaving x p state hx hstate (hreleases ▸ hnot))

theorem Ledger.finish (h : Ledger s) {l : Lease Hook} {f : Lease Hook → Lease Hook}
    (hl : s.pool.lease? id = some l) (hpool : s'.pool = s.pool.update id f)
    (hport : (f l).port = l.port) (hover : (f l).state ≠ .held) (hclaims : s'.claims = s.claims)
    (hreleases : s'.releases = s.releases)
    (hpending : ∀ x p, s'.Pending x p ↔ (x, p) = (id, l.port) ∨ s.Pending x p) : Ledger s' := by
  have hterms (x : LeaseId) : terms s'.pool x =
      if x = id then some (l.port, (f l).state) else terms s.pool x := by
    rw [hpool, terms_update hl, hport]
  have hover' {x : LeaseId} {p : Port} (hx : ∃ state ≠ .held, terms s.pool x = some (p, state)) :
      ∃ state ≠ .held, terms s'.pool x = some (p, state) := by
    obtain ⟨state, hstate, hold⟩ := hx
    by_cases hxid : x = id
    · subst hxid
      rw [terms_eq hl] at hold
      cases hold
      exact ⟨_, hover, by rw [hterms, if_pos rfl]⟩
    · exact ⟨state, hstate, by rw [hterms, if_neg hxid, hold]⟩
  constructor
  case count =>
    rw [hclaims, hpool, Pool.nextId_update, h.count]
  case ids =>
    rw [hclaims]
    exact h.ids
  case claims =>
    intro x p
    rw [hclaims, hterms, h.claims]
    by_cases hx : x = id
    · subst hx
      simp [terms_eq hl]
    · simp [hx]
  case registry =>
    intro p x
    rw [hclaims, hreleases, hpool, Pool.registry_update]
    exact h.registry p x
  case taken =>
    intro p
    rw [hpool, Pool.taken_update, Pool.registry_update]
    exact h.taken p
  case released =>
    intro x hx
    obtain ⟨p, hold⟩ := h.released x (hreleases ▸ hx)
    exact ⟨p, hover' hold⟩
  case pending =>
    intro x p hx
    obtain heq | hold := (hpending x p).mp hx
    · cases heq
      exact ⟨_, hover, by rw [hterms, if_pos rfl]⟩
    · exact hover' (h.pending x p hold)
  case leaving =>
    intro x p state hx hstate hnot
    rw [hpending]
    rw [hterms] at hx
    split at hx
    · rename_i hxid
      cases hx
      exact .inl (by rw [hxid])
    · exact .inr (h.leaving x p state hx hstate (hreleases ▸ hnot))

theorem Ledger.release (h : Ledger s) (hid : s.Pending id port)
    (hpool : s'.pool = s.pool.release id port) (hclaims : s'.claims = s.claims)
    (hreleases : s'.releases = id :: s.releases) (hback : ∀ x p, s'.Pending x p → s.Pending x p)
    (hon : ∀ x p, s.Pending x p → s'.Pending x p ∨ x = id) : Ledger s' := by
  obtain ⟨state, hstate, hterms⟩ := h.pending id port hid
  have hsame (x : LeaseId) : terms s'.pool x = terms s.pool x := by
    rw [hpool, terms_release]
  have hget (p : Port) : s'.pool.registry[p]? =
      if port = p ∧ s.pool.registry[port]? = some id then none else s.pool.registry[p]? := by
    rw [hpool, registry_release]
  have honly {p : Port} (hp : s.pool.registry[p]? = some id) : p = port := by
    obtain ⟨state', hterms'⟩ := (h.claims id p).mp ((h.registry p id).mp hp).1
    rw [hterms] at hterms'
    cases hterms'
    rfl
  constructor
  case count =>
    rw [hclaims, hpool, Pool.nextId_release, h.count]
  case ids =>
    rw [hclaims]
    exact h.ids
  case claims =>
    intro x p
    rw [hclaims, hsame]
    exact h.claims x p
  case registry =>
    intro p x
    rw [hclaims, hreleases, hget, List.mem_cons]
    by_cases hx : x = id
    · subst hx
      simp only [true_or, not_true, and_false, iff_false]
      split
      · simp
      · rename_i hnot
        intro hp
        obtain rfl := honly hp
        exact hnot ⟨rfl, hp⟩
    · rw [or_iff_right hx, ← h.registry p x]
      split
      · rename_i hfreed
        obtain ⟨rfl, hname⟩ := hfreed
        simp [hname, Ne.symm hx]
      · exact Iff.rfl
  case taken =>
    intro p
    rw [hget, hpool, contains_release]
    split
    · simp
    · exact h.taken p
  case released =>
    intro x hx
    obtain rfl | hold := List.mem_cons.mp (hreleases ▸ hx)
    · exact ⟨port, state, hstate, (hsame x).trans hterms⟩
    · exact (h.released x hold).same (hsame x)
  case pending =>
    intro x p hx
    rw [hsame]
    exact h.pending x p (hback x p hx)
  case leaving =>
    intro x p state hx hstate hnot
    rw [hsame] at hx
    rw [hreleases, List.mem_cons, not_or] at hnot
    exact (hon x p (h.leaving x p state hx hstate hnot.2)).resolve_right hnot.1

theorem Ledger.change (h : Ledger s) (hchange : Change s s') : Ledger s' := by
  cases hchange with
  | quiet hpool hclaims hreleases hpending => exact h.quiet hpool hclaims hreleases hpending
  | claim hfree hpool hclaims hreleases hpending =>
    exact h.claim hfree hpool hclaims hreleases hpending
  | finish hl hheld hpool hport hover hclaims hreleases hpending =>
    exact h.finish hl hpool hport hover hclaims hreleases hpending
  | release hid hpool hclaims hreleases hback hon =>
    exact h.release hid hpool hclaims hreleases hback hon

theorem Reachable.ledger (h : Reachable policy s) : Ledger s := by
  induction h with
  | refl => exact .empty
  | tail _ hmove ih => exact ih.change hmove.change

end PortLease.Threads
