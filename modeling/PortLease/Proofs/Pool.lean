import Mathlib.Data.List.Nodup
import PortLease.Pool.Reserve
import PortLease.Proofs.PortSet.Search

/-!
The sections of a pool, each seen through `lease?`, and the bookkeeping that they keep: the bits, the
registry and the held leases say the same. A lease changes by `update` alone, and a held one ends
together with the release of its port.
-/

namespace PortLease.Pool

variable {η : Type} {policy : Policy} {pool : Pool η} {id id' : Nat} {port : Port}

theorem lease?_lt {l : Lease η} (h : pool.lease? id = some l) : id < pool.nextId := by
  simp only [lease?] at h
  split at h
  · cases h
  · rename_i h0
    obtain ⟨hlt, -⟩ := Array.getElem?_eq_some_iff.mp h
    have hpos := Nat.pos_of_ne_zero h0
    simp only [nextId]
    omega

theorem find?_eq_some_iff {number : Int} :
    pool.find? number = some id ↔ ∃ p : Port, number = p.val ∧ pool.current? p = some id := by
  simp only [find?, Option.bind_eq_some_iff, Port.ofInt?_eq_some_iff]

theorem lease?_nextId : pool.lease? pool.nextId = none := by
  simp [lease?, nextId]

theorem lease?_setLease {l l' : Lease η} (h : pool.lease? id = some l) :
    (pool.setLease id l').lease? id' = if id' = id then some l' else pool.lease? id' := by
  have hlt := lease?_lt h
  have hid : id ≠ 0 := by
    rintro rfl
    simp [lease?] at h
  have hpos := Nat.pos_of_ne_zero hid
  simp only [nextId] at hlt
  simp only [lease?, setLease, Array.getElem?_setIfInBounds]
  by_cases h0 : id' = 0
  · simp [h0, hid.symm]
  · by_cases hi : id' = id
    · have hin : id - 1 < pool.leases.size := by omega
      simp [hid, hi, hin]
    · have hpos' := Nat.pos_of_ne_zero h0
      have hlt' := Nat.lt_or_gt_of_ne hi
      have hne : id - 1 ≠ id' - 1 := by omega
      simp [h0, hi, hne]

def update (pool : Pool η) (id : LeaseId) (f : Lease η → Lease η) : Pool η :=
  match pool.lease? id with
  | none => pool
  | some l => pool.setLease id (f l)

theorem lease?_update (f : Lease η → Lease η) :
    (pool.update id f).lease? id' = if id' = id then (pool.lease? id).map f else pool.lease? id' := by
  unfold update
  cases h : pool.lease? id with
  | none =>
    by_cases hi : id' = id
    · simp [hi, h]
    · simp [hi]
  | some l => simp [lease?_setLease h]

@[simp] theorem taken_update (f : Lease η → Lease η) : (pool.update id f).taken = pool.taken := by
  unfold update
  split <;> rfl

@[simp] theorem registry_update (f : Lease η → Lease η) :
    (pool.update id f).registry = pool.registry := by
  unfold update
  split <;> rfl

@[simp] theorem nextId_update (f : Lease η → Lease η) : (pool.update id f).nextId = pool.nextId := by
  unfold update
  split <;> simp [setLease, nextId]

theorem update_update {f g : Lease η → Lease η}
    (hback : ∀ l, pool.lease? id = some l → g (f l) = l) : (pool.update id f).update id g = pool := by
  cases hl : pool.lease? id with
  | none => simp [update, hl]
  | some l =>
    have hset : (pool.setLease id (f l)).lease? id = some (f l) := by
      rw [lease?_setLease hl, if_pos rfl]
    simp only [update, hl, hset, hback l hl]
    simp only [lease?] at hl
    split at hl
    · cases hl
    · obtain ⟨hlt, heq⟩ := Array.getElem?_eq_some_iff.mp hl
      have hsame : pool.leases.setIfInBounds (id - 1) l = pool.leases := by
        rw [Array.setIfInBounds, dif_pos hlt, ← heq, Array.set_getElem_self]
      simp [setLease, hsame]

@[simp] theorem lease?_release : (pool.release id port).lease? id' = pool.lease? id' := by
  unfold release
  split <;> rfl

@[simp] theorem nextId_release : (pool.release id port).nextId = pool.nextId := by
  unfold release
  split <;> rfl

theorem lease?_lend : (pool.lend port).2.lease? id =
    if id = pool.nextId then some { port } else pool.lease? id := by
  simp only [lend, lease?, nextId, Array.getElem?_push]
  by_cases h0 : id = 0
  · simp [h0]
  · by_cases hi : id = pool.leases.size + 1
    · simp [hi]
    · have hpos := Nat.pos_of_ne_zero h0
      have hlt := Nat.lt_or_gt_of_ne hi
      have hne : id - 1 ≠ pool.leases.size := by omega
      simp [h0, hi, hne]

theorem lend_fst : (pool.lend port).1 = pool.nextId := rfl

@[simp] theorem nextId_lend : (pool.lend port).2.nextId = pool.nextId + 1 := by
  simp [lend, nextId]

theorem registry_lend (p : Port) : (pool.lend port).2.registry[p]? =
    if port = p then some pool.nextId else pool.registry[p]? := by
  have hreg : (pool.lend port).2.registry = pool.registry.insert port pool.nextId := rfl
  simp [hreg, Std.TreeMap.getElem?_insert]

theorem registry_release (p : Port) : (pool.release id port).registry[p]? =
    if port = p ∧ pool.registry[port]? = some id then none else pool.registry[p]? := by
  unfold release
  by_cases h : pool.registry[port]? = some id
  · simp [h, Std.TreeMap.getElem?_erase]
  · simp [h]

theorem contains_release (p : Port) : (pool.release id port).taken.contains p =
    if port = p ∧ pool.registry[port]? = some id then false else pool.taken.contains p := by
  unfold release
  by_cases h : pool.registry[port]? = some id
  · simp only [h, if_true, and_true, PortSet.contains_erase]
    by_cases hp : port = p
    · simp [hp]
    · simp [hp, Ne.symm hp]
  · simp [h]

theorem retain_eq : pool.retain id = pool.update id fun l => { l with holders := l.holders + 1 } := by
  unfold retain update
  split <;> simp [*]

def finished (state : LeaseState) (l : Lease η) : Lease η := { l with state, hooks := [] }

theorem finish_held {l : Lease η} {state : LeaseState} (h : pool.lease? id = some l)
    (hl : l.state = .held) : pool.finish id state = (some l, pool.update id (finished state)) := by
  simp [finish, update, h, Lease.isHeld, hl, finished]

theorem finish_over {l : Lease η} {state : LeaseState} (h : pool.lease? id = some l)
    (hl : l.state ≠ .held) : pool.finish id state = (none, pool) := by
  simp [finish, h, Lease.isHeld, hl]

theorem finish_settled {state : LeaseState}
    (h : ∀ l, pool.lease? id = some l → l.state ≠ .held) : pool.finish id state = (none, pool) := by
  cases hl : pool.lease? id with
  | none => simp [finish, hl]
  | some l => exact finish_over hl (h l hl)

theorem close_held {l : Lease η} (h : pool.lease? id = some l) (hl : l.state = .held) :
    pool.close id = (some l, (pool.update id (finished .closed)).release id l.port) := by
  simp [close, finish_held h hl]

theorem close_over {l : Lease η} (h : pool.lease? id = some l) (hl : l.state ≠ .held) :
    pool.close id = (none, pool) := by
  simp [close, finish_over h hl]

def lessHeld (l : Lease η) : Lease η := { l with holders := l.holders - 1 }

theorem letGo_last {l : Lease η} (h : pool.lease? id = some l) (hl : l.state = .held)
    (hh : l.holders ≤ 1) : pool.letGo id =
      (some (lessHeld l), pool.update id fun l => finished .reclaimed (lessHeld l)) := by
  have hset : (pool.setLease id (lessHeld l)).lease? id = some (lessHeld l) := by
    rw [lease?_setLease h, if_pos rfl]
  simp only [letGo, h, if_pos hh]
  rw [show ({ l with holders := l.holders - 1 } : Lease η) = lessHeld l from rfl,
    finish_held hset hl]
  simp [update, h, hset]
  simp [setLease]

theorem letGo_more {l : Lease η} (h : pool.lease? id = some l)
    (hl : l.state = .held → 1 < l.holders) :
    pool.letGo id = (none, pool.update id lessHeld) := by
  have hset : (pool.setLease id (lessHeld l)).lease? id = some (lessHeld l) := by
    rw [lease?_setLease h, if_pos rfl]
  have hu : pool.update id lessHeld = pool.setLease id (lessHeld l) := by simp [update, h]
  simp only [letGo, h]
  rw [show ({ l with holders := l.holders - 1 } : Lease η) = lessHeld l from rfl, hu]
  split
  · apply finish_over hset
    intro hheld
    have := hl hheld
    omega
  · rfl

theorem addHook_held {l : Lease η} {hook : η} (h : pool.lease? id = some l)
    (hl : l.state = .held) : pool.addHook id hook =
      (true, pool.update id fun l => { l with hooks := hook :: l.hooks }) := by
  simp [addHook, update, h, Lease.isHeld, hl]

theorem addHook_over {l : Lease η} {hook : η} (h : pool.lease? id = some l)
    (hl : l.state ≠ .held) : pool.addHook id hook = (false, pool) := by
  simp [addHook, h, Lease.isHeld, hl]

theorem addHook_settled {hook : η} (h : ∀ l, pool.lease? id = some l → l.state ≠ .held) :
    pool.addHook id hook = (false, pool) := by
  cases hl : pool.lease? id with
  | none => simp [addHook, hl]
  | some l => exact addHook_over hl (h l hl)

def Holds (pool : Pool η) (id : LeaseId) (port : Port) : Prop :=
  ∃ l, pool.lease? id = some l ∧ l.state = .held ∧ l.port = port

/-- The bits, the registry and the held leases say the same, about ports that may be leased; a held
lease has a holder. -/
structure Sound (policy : Policy) (pool : Pool η) : Prop where
  counted : pool.taken.Counted
  taken_iff : ∀ p, pool.taken.contains p = true ↔ ∃ id, pool.registry[p]? = some id
  registry_iff : ∀ p id, pool.registry[p]? = some id ↔ pool.Holds id p
  candidate : ∀ p, pool.taken.contains p = true → policy.isCandidate p = true
  holders_pos : ∀ id l, pool.lease? id = some l → l.state = .held → 0 < l.holders

theorem sound_empty : Sound policy (empty : Pool η) where
  counted := PortSet.counted_empty
  taken_iff p := by simp [empty, PortSet.contains_empty]
  registry_iff p id := by simp [empty, Holds, lease?]
  candidate p h := by simp [empty, PortSet.contains_empty] at h
  holders_pos id l h := by simp [empty, lease?] at h

theorem holds_update {f : Lease η → Lease η} {p : Port}
    (hport : ∀ l, (f l).port = l.port) (hstate : ∀ l, (f l).state = l.state) :
    (pool.update id f).Holds id' p ↔ pool.Holds id' p := by
  simp only [Holds, lease?_update]
  by_cases hi : id' = id
  · subst hi
    cases h : pool.lease? id' with
    | none => simp
    | some l => simp [hport, hstate]
  · simp [hi]

theorem Sound.update (hs : pool.Sound policy) {f : Lease η → Lease η}
    (hport : ∀ l, (f l).port = l.port) (hstate : ∀ l, (f l).state = l.state)
    (hholders : ∀ l, pool.lease? id = some l → l.state = .held → 0 < (f l).holders) :
    (pool.update id f).Sound policy where
  counted := by simpa using hs.counted
  taken_iff := by simpa using hs.taken_iff
  registry_iff p id' := by
    rw [holds_update hport hstate, registry_update]
    exact hs.registry_iff p id'
  candidate := by simpa using hs.candidate
  holders_pos id' l h hl := by
    rw [lease?_update] at h
    split at h
    · obtain ⟨k, hk, rfl⟩ := Option.map_eq_some_iff.mp h
      exact hholders k hk ((hstate k).symm.trans hl)
    · exact hs.holders_pos id' l h hl

theorem Sound.endLease (hs : pool.Sound policy) {l : Lease η} {f : Lease η → Lease η}
    (h : pool.lease? id = some l) (hl : l.state = .held) (hf : (f l).state ≠ .held) :
    ((pool.update id f).release id l.port).Sound policy := by
  have hreg : pool.registry[l.port]? = some id := (hs.registry_iff _ _).mpr ⟨l, h, hl, rfl⟩
  have hrel : (pool.update id f).release id l.port =
      { pool.update id f with
        taken := pool.taken.erase l.port, registry := pool.registry.erase l.port } := by
    simp [Pool.release, hreg]
  have hlease (id' : LeaseId) : ((pool.update id f).release id l.port).lease? id' =
      if id' = id then some (f l) else pool.lease? id' := by
    simp [lease?_update, h]
  have hget (p : Port) : (pool.registry.erase l.port)[p]? =
      if l.port = p then none else pool.registry[p]? := by
    simp [Std.TreeMap.getElem?_erase]
  constructor
  · rw [hrel]
    exact hs.counted.erase _
  · intro p
    rw [hrel]
    simp only [PortSet.contains_erase, hget]
    by_cases hp : l.port = p
    · simp [hp]
    · simpa [hp, Ne.symm hp] using hs.taken_iff p
  · intro p id'
    simp only [Holds, hlease]
    rw [hrel]
    simp only [hget]
    by_cases hp : l.port = p
    · subst hp
      simp only [reduceIte, reduceCtorEq, false_iff, not_exists, not_and]
      intro k hk hheld hport
      split at hk
      · obtain rfl := Option.some.inj hk
        exact hf hheld
      · rename_i hne
        have hother := (hs.registry_iff l.port id').mpr ⟨k, hk, hheld, hport⟩
        rw [hreg] at hother
        exact hne (Option.some.inj hother).symm
    · rw [if_neg hp, hs.registry_iff p id']
      by_cases hi : id' = id
      · subst hi
        simp only [Holds, h, reduceIte, Option.some.injEq, exists_eq_left', hl, true_and]
        exact ⟨fun hport => absurd hport hp, fun hheld => absurd hheld.1 hf⟩
      · simp [Holds, hi]
  · intro p hp
    rw [hrel] at hp
    simp only [PortSet.contains_erase, Bool.and_eq_true] at hp
    exact hs.candidate p hp.2
  · intro id' k hk hheld
    rw [hlease] at hk
    split at hk
    · obtain rfl := Option.some.inj hk
      exact absurd hheld hf
    · exact hs.holders_pos id' k hk hheld

theorem Sound.lend (hs : pool.Sound policy) (hfree : pool.taken.contains port = false)
    (hport : policy.isCandidate port = true) : (pool.lend port).2.Sound policy := by
  have hnone : pool.registry[port]? = none := by
    cases hreg : pool.registry[port]? with
    | none => rfl
    | some id => simp [(hs.taken_iff port).mpr ⟨id, hreg⟩] at hfree
  have htaken : (pool.lend port).2.taken = pool.taken.insert port := rfl
  have hget (p : Port) : (pool.lend port).2.registry[p]? =
      if port = p then some pool.nextId else pool.registry[p]? := registry_lend p
  constructor
  · rw [htaken]
    exact hs.counted.insert port
  · intro p
    rw [htaken, PortSet.contains_insert, hget]
    by_cases hp : port = p
    · simp [hp]
    · simpa [hp, Ne.symm hp] using hs.taken_iff p
  · intro p id
    rw [hget]
    simp only [Holds, lease?_lend]
    by_cases hi : id = pool.nextId
    · subst hi
      by_cases hp : port = p
      · simp [hp]
      · have := hs.registry_iff p pool.nextId
        simp only [Holds, lease?_nextId] at this
        simp [hp, this]
    · have hiff := hs.registry_iff p id
      by_cases hp : port = p
      · subst hp
        rw [hnone] at hiff
        simpa [hi, Ne.symm hi, Holds] using hiff
      · simpa [hi, hp, Holds] using hiff
  · intro p hp
    rw [htaken, PortSet.contains_insert] at hp
    by_cases hpp : p = port
    · rwa [hpp]
    · exact hs.candidate p (by simpa [hpp] using hp)
  · intro id l h hl
    rw [lease?_lend] at h
    split at h
    · obtain rfl := Option.some.inj h
      exact Nat.one_pos
    · exact hs.holders_pos id l h hl

end PortLease.Pool
