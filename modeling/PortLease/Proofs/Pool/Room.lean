import PortLease.Proofs.Pool.Grant

namespace PortLease.Pool

variable {η : Type} {policy : Policy} {bindable : Port → Bool} {pool pool' : Pool η}
  {ids : List LeaseId} {id : Nat} {p q : Port}

def World.steady (scanStart : Nat → Port) (bindable : Port → Bool) : World :=
  ⟨scanStart, fun _ => bindable⟩

def isFree (policy : Policy) (pool : Pool η) (p : Port) : Bool :=
  policy.isCandidate p && !pool.taken.contains p

/-- Free, and bound by nobody else if the policy wants to know. -/
def isUsable (policy : Policy) (bindable : Port → Bool) (pool : Pool η) (p : Port) : Bool :=
  pool.isFree policy p && (!policy.probeBind || bindable p)

def freePorts (policy : Policy) (pool : Pool η) : Finset Port :=
  Finset.univ.filter fun p => pool.isFree policy p = true

def usablePorts (policy : Policy) (bindable : Port → Bool) (pool : Pool η) : Finset Port :=
  Finset.univ.filter fun p => pool.isUsable policy bindable p = true

def blockedPorts (policy : Policy) (bindable : Port → Bool) (pool : Pool η) : Finset Port :=
  pool.freePorts policy \ pool.usablePorts policy bindable

/-- As before, but for leases that have come and are over. -/
structure Restored (pool pool' : Pool η) : Prop where
  taken : pool'.taken = pool.taken
  registry : ∀ p : Port, pool'.registry[p]? = pool.registry[p]?
  leases : ∀ id : Nat, id < pool.nextId → pool'.lease? id = pool.lease? id

/-- New leases, each on a port that was free; all else is as before, but for leases that have come and
are over. -/
structure Adds (policy : Policy) (pool pool' : Pool η) (added : List (Port × LeaseId)) : Prop where
  lease : ∀ port id, (port, id) ∈ added →
    pool.nextId ≤ id ∧ pool'.lease? id = some { port } ∧ pool.isFree policy port = true
  ports : (added.map Prod.fst).Nodup
  taken : ∀ p, pool'.taken.contains p = true ↔
    pool.taken.contains p = true ∨ p ∈ added.map Prod.fst
  count : pool'.takenCount = pool.takenCount + added.length
  registry : ∀ (p : Port) id, pool'.registry[p]? = some id ↔
    pool.registry[p]? = some id ∨ (p, id) ∈ added
  leases : ∀ id : Nat, id < pool.nextId → pool'.lease? id = pool.lease? id

theorem isFree_iff : pool.isFree policy p = true ↔
    policy.isCandidate p = true ∧ pool.taken.contains p = false := by
  simp [isFree]

theorem mem_freePorts : p ∈ pool.freePorts policy ↔ pool.isFree policy p = true := by
  simp [freePorts]

theorem mem_usablePorts :
    p ∈ pool.usablePorts policy bindable ↔ pool.isUsable policy bindable p = true := by
  simp [usablePorts]

theorem isUsable_of_isFree_false (h : pool.isFree policy p = false) :
    pool.isUsable policy bindable p = false := by
  rw [isUsable, h, Bool.false_and]

theorem isUsable_unprobed (hprobe : policy.probeBind = false) :
    pool.isUsable policy bindable p = pool.isFree policy p := by
  simp [isUsable, hprobe]

theorem usablePorts_unprobed (hprobe : policy.probeBind = false) :
    pool.usablePorts policy bindable = pool.freePorts policy := by
  ext p
  rw [mem_usablePorts, mem_freePorts, isUsable_unprobed hprobe]

theorem Sound.members_subset (hs : pool.Sound policy) :
    pool.taken.members ⊆ policy.candidates := by
  intro p hp
  simpa [Policy.candidates] using hs.candidate p (PortSet.mem_members.mp hp)

theorem Sound.card_freePorts (hs : pool.Sound policy) :
    (pool.freePorts policy).card = policy.capacity - pool.takenCount := by
  have hfree : pool.freePorts policy = policy.candidates \ pool.taken.members := by
    ext p
    simp [mem_freePorts, isFree_iff, Policy.candidates, PortSet.mem_members]
  rw [hfree, Finset.card_sdiff_of_subset hs.members_subset, policy.card_candidates, takenCount, hs.counted]

theorem Grants.holds_iff (h : Grants policy pool pool' ids) : pool'.Holds id p ↔
    pool.Holds id p ∨ id ∈ ids ∧ pool'.lease? id = some { port := p } := by
  by_cases hid : id < pool.nextId
  · have hnot : id ∉ ids := fun hmem => Nat.not_lt.mpr (h.granted id hmem).1 hid
    simp [Holds, h.old id hid, hnot]
  · have hle := Nat.not_lt.mp hid
    have hnone : ¬ pool.Holds id p := by
      rintro ⟨l, hl, -⟩
      exact hid (lease?_lt hl)
    rw [or_iff_right hnone]
    constructor
    · rintro ⟨l, hl, hheld, rfl⟩
      by_cases hmem : id ∈ ids
      · obtain ⟨-, port, hport⟩ := h.granted id hmem
        rw [hport] at hl
        obtain rfl := Option.some.inj hl
        exact ⟨hmem, hport⟩
      · have hclosed := (h.givenUp id l hle hmem hl).1
        rw [hheld] at hclosed
        cases hclosed
    · rintro ⟨-, hl⟩
      exact ⟨_, hl, rfl, rfl⟩

theorem Grants.registry_iff (hs : pool.Sound policy) (h : Grants policy pool pool' ids) :
    pool'.registry[p]? = some id ↔
      pool.registry[p]? = some id ∨ id ∈ ids ∧ pool'.lease? id = some { port := p } := by
  rw [h.sound.registry_iff, hs.registry_iff, h.holds_iff]

theorem Grants.contains_iff (hs : pool.Sound policy) (h : Grants policy pool pool' ids) :
    pool'.taken.contains p = true ↔
      pool.taken.contains p = true ∨ ∃ id ∈ ids, pool'.lease? id = some { port := p } := by
  rw [h.sound.taken_iff, hs.taken_iff, ← exists_or]
  exact exists_congr fun id => h.registry_iff hs

theorem Grants.restored (hs : pool.Sound policy) (h : Grants policy pool pool' []) :
    pool.Restored pool' where
  taken := by
    apply PortSet.eq_of_contains h.sound.counted hs.counted
    intro p
    rw [Bool.eq_iff_iff, h.contains_iff hs]
    simp
  registry p := by
    apply Option.ext
    intro id
    rw [h.registry_iff hs]
    simp
  leases := h.old

theorem Grants.isFree (hs : pool.Sound policy) (h : Grants policy pool pool' ids) (hid : id ∈ ids)
    (hl : pool'.lease? id = some { port := p }) : pool.isFree policy p = true := by
  have hreg := (h.registry_iff hs).mpr (.inr ⟨hid, hl⟩)
  refine isFree_iff.mpr ⟨h.sound.candidate p ((h.sound.taken_iff p).mpr ⟨id, hreg⟩), ?_⟩
  refine Bool.eq_false_iff.mpr fun htaken => ?_
  obtain ⟨other, hother⟩ := (hs.taken_iff p).mp htaken
  have hsame := (h.registry_iff hs).mpr (.inl hother)
  rw [hreg] at hsame
  obtain rfl := Option.some.inj hsame
  obtain ⟨l, hl', -⟩ := (hs.registry_iff p id).mp hother
  exact Nat.not_lt.mpr (h.granted id hid).1 (lease?_lt hl')

theorem Grants.adds (hs : pool.Sound policy) {added : List (Port × LeaseId)}
    (h : Grants policy pool pool' (added.map Prod.snd))
    (hport : ∀ port id, (port, id) ∈ added → pool'.lease? id = some { port }) :
    Adds policy pool pool' added := by
  have hmem (id : LeaseId) (p : Port) :
      (p, id) ∈ added ↔ id ∈ added.map Prod.snd ∧ pool'.lease? id = some { port := p } := by
    constructor
    · intro hin
      exact ⟨List.mem_map_of_mem hin, hport p id hin⟩
    · rintro ⟨hin, hl⟩
      obtain ⟨⟨port, _⟩, hpair, rfl⟩ := List.mem_map.mp hin
      rw [hport _ _ hpair, Option.some.injEq, Lease.mk.injEq] at hl
      obtain ⟨rfl, -⟩ := hl
      exact hpair
  have hports : (added.map Prod.fst).Nodup := by
    have hpairs : added.Nodup := h.nodup.of_map
    refine hpairs.map_on ?_
    rintro ⟨p, id⟩ hp ⟨_, id'⟩ hq rfl
    have hid := (h.registry_iff hs).mpr (.inr ((hmem id p).mp hp))
    rw [(h.registry_iff hs).mpr (.inr ((hmem id' p).mp hq)), Option.some.injEq] at hid
    rw [hid]
  have htaken (p : Port) : pool'.taken.contains p = true ↔
      pool.taken.contains p = true ∨ p ∈ added.map Prod.fst := by
    rw [h.contains_iff hs]
    apply or_congr_right
    rw [List.mem_map]
    constructor
    · rintro ⟨id, hid⟩
      exact ⟨(p, id), (hmem id p).mpr hid, rfl⟩
    · rintro ⟨⟨_, id⟩, hin, rfl⟩
      exact ⟨id, (hmem id _).mp hin⟩
  have hfree (port : Port) (id : LeaseId) (hin : (port, id) ∈ added) :
      pool.isFree policy port = true := h.isFree hs (List.mem_map_of_mem hin) (hport port id hin)
  constructor
  · intro port id hin
    exact ⟨(h.granted id (List.mem_map_of_mem hin)).1, hport port id hin, hfree port id hin⟩
  · exact hports
  · exact htaken
  · have hunion : pool'.taken.members = pool.taken.members ∪ (added.map Prod.fst).toFinset := by
      ext p
      rw [Finset.mem_union, PortSet.mem_members, PortSet.mem_members, List.mem_toFinset, htaken]
    have hdisjoint : Disjoint pool.taken.members (added.map Prod.fst).toFinset := by
      rw [Finset.disjoint_right]
      intro p hp
      obtain ⟨⟨_, id⟩, hin, rfl⟩ := List.mem_map.mp (List.mem_toFinset.mp hp)
      rw [PortSet.mem_members, (isFree_iff.mp (hfree _ _ hin)).2]
      exact Bool.false_ne_true
    rw [takenCount, takenCount, h.sound.counted, hs.counted, hunion,
      Finset.card_union_of_disjoint hdisjoint, List.toFinset_card_of_nodup hports, List.length_map]
  · intro p id
    rw [h.registry_iff hs, hmem]
  · exact h.old

theorem Adds.isFree_iff {id : LeaseId} (h : Adds policy pool pool' [(p, id)]) :
    pool'.isFree policy q = true ↔ q ≠ p ∧ pool.isFree policy q = true := by
  rw [Pool.isFree_iff, Pool.isFree_iff, ← Bool.not_eq_true, ← Bool.not_eq_true, h.taken]
  simp only [List.map_cons, List.map_nil, List.mem_singleton]
  tauto

theorem Adds.freePorts {id : LeaseId} (h : Adds policy pool pool' [(p, id)]) :
    pool'.freePorts policy = (pool.freePorts policy).erase p := by
  ext q
  rw [Finset.mem_erase, mem_freePorts, mem_freePorts, h.isFree_iff]

theorem Adds.usablePorts {id : LeaseId} (h : Adds policy pool pool' [(p, id)]) :
    pool'.usablePorts policy bindable = (pool.usablePorts policy bindable).erase p := by
  ext q
  rw [Finset.mem_erase, mem_usablePorts, mem_usablePorts, isUsable, isUsable, Bool.and_eq_true,
    Bool.and_eq_true, h.isFree_iff, and_assoc]

end PortLease.Pool
