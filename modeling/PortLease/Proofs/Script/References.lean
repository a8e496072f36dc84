import Mathlib.Data.Finset.Card
import PortLease.Proofs.Pool.Grant
import PortLease.Proofs.Script.Run

namespace PortLease.Script

open Pool (Grants lease?_update)

variable {policy : Policy} {m : Machine} {id x : LeaseId} {slot : Slot}

def Frame.refs : Frame → List LeaseId
  | .body _ current => current.toList
  | .ending current _ => current.toList
  | .hooks .. => []
  | .check .. => []
  | .handOver todo => todo.map Prod.snd

@[simp] theorem Frame.refs_hooks {lease : LeaseId} {port : Port} {running : Nat} {todo : List Hook}
    {failures : List String} {occasion : Occasion} :
    (Frame.hooks lease port running todo failures occasion).refs = [] := rfl

def slotsOf (slots : Std.TreeMap Slot LeaseId) (id : LeaseId) : Finset Slot :=
  slots.keys.toFinset.filter fun slot => slots[slot]? = some id

def Machine.references (m : Machine) (id : LeaseId) : Nat :=
  (slotsOf m.slots id).card + (m.stack.flatMap Frame.refs).count id

def holdersOf (pool : Pool Hook) (id : LeaseId) : Nat := ((pool.lease? id).map Lease.holders).getD 0

theorem mem_slotsOf {slots : Std.TreeMap Slot LeaseId} :
    slot ∈ slotsOf slots id ↔ slots[slot]? = some id := by
  simp only [slotsOf, Finset.mem_filter, List.mem_toFinset, Std.TreeMap.mem_keys,
    and_iff_right_iff_imp]
  intro h
  rw [Std.TreeMap.mem_iff_isSome_getElem?, h]
  rfl

theorem slotsOf_erase (slots : Std.TreeMap Slot LeaseId) :
    slotsOf (slots.erase slot) x = (slotsOf slots x).erase slot := by
  ext other
  rw [Finset.mem_erase, mem_slotsOf, mem_slotsOf, Std.TreeMap.getElem?_erase]
  by_cases h : slot = other
  · simp [h]
  · simp [h, Ne.symm h]

theorem slotsOf_insert (slots : Std.TreeMap Slot LeaseId) : slotsOf (slots.insert slot id) x =
    if id = x then insert slot (slotsOf slots x) else (slotsOf slots x).erase slot := by
  ext other
  rw [mem_slotsOf, Std.TreeMap.getElem?_insert]
  by_cases hx : id = x
  · rw [if_pos hx, Finset.mem_insert, mem_slotsOf]
    by_cases h : slot = other
    · simp [h, hx]
    · simp [h, Ne.symm h]
  · rw [if_neg hx, Finset.mem_erase, mem_slotsOf]
    by_cases h : slot = other
    · simp [h, hx]
    · simp [h, Ne.symm h]

theorem card_slotsOf_erase {slots : Std.TreeMap Slot LeaseId} (h : slots[slot]? = some id) :
    (slotsOf (slots.erase slot) x).card + [id].count x = (slotsOf slots x).card := by
  rw [slotsOf_erase, List.count_singleton]
  by_cases hx : id = x
  · subst hx
    have hmem := mem_slotsOf.mpr h
    have hpos := Finset.card_pos.mpr ⟨slot, hmem⟩
    simp only [Finset.card_erase_of_mem hmem, BEq.rfl, if_true]
    omega
  · have hmem : slot ∉ slotsOf slots x := by
      rw [mem_slotsOf, h]
      simpa using hx
    simp [Finset.erase_eq_of_notMem hmem, hx]

theorem card_slotsOf_insert (slots : Std.TreeMap Slot LeaseId) :
    (slotsOf (slots.insert slot id) x).card + slots[slot]?.toList.count x =
      (slotsOf slots x).card + [id].count x := by
  rw [slotsOf_insert, List.count_singleton]
  have hmem := @mem_slotsOf x slot slots
  by_cases hold : slots[slot]? = some x
  · have hin := hmem.mpr hold
    have hpos := Finset.card_pos.mpr ⟨slot, hin⟩
    by_cases hx : id = x
    · simp [hx, hold, Finset.insert_eq_of_mem hin]
    · simp only [if_neg hx, Finset.card_erase_of_mem hin, hold, Option.toList_some,
        List.count_singleton_self, beq_iff_eq]
      omega
  · have hout : slot ∉ slotsOf slots x := fun hin => hold (hmem.mp hin)
    have hcount : slots[slot]?.toList.count x = 0 := by
      apply List.count_eq_zero.mpr
      simpa using fun h => hold h
    by_cases hx : id = x
    · simp [hx, hcount, Finset.card_insert_of_notMem hout]
    · simp [hx, hcount, Finset.erase_eq_of_notMem hout]

/-- The pool is sound, and the holders of each lease are the references to it. -/
structure Machine.Sound (policy : Policy) (m : Machine) : Prop where
  pool : m.pool.Sound policy
  count : ∀ id, holdersOf m.pool id = m.references id

theorem Machine.sound_fresh : Machine.Sound policy {} where
  pool := Pool.sound_empty
  count id := by
    have hslots : slotsOf ∅ id = ∅ := by
      ext slot
      simp [mem_slotsOf]
    simp [holdersOf, Pool.lease?, Pool.empty, references, hslots]

theorem Machine.Sound.lease (h : m.Sound policy) (hid : 0 < m.references id) :
    ∃ l, m.pool.lease? id = some l ∧ l.holders = m.references id := by
  rw [← h.count id, holdersOf] at hid
  cases hl : m.pool.lease? id with
  | none => simp [hl] at hid
  | some l => exact ⟨l, rfl, by simpa [holdersOf, hl] using h.count id⟩

theorem holdersOf_update {pool : Pool Hook} {f : Lease Hook → Lease Hook} {l : Lease Hook}
    (hl : pool.lease? id = some l) :
    holdersOf (pool.update id f) x = if x = id then (f l).holders else holdersOf pool x := by
  simp only [holdersOf, lease?_update, hl]
  split <;> simp

theorem holdersOf_release (pool : Pool Hook) (port : Port) :
    holdersOf (pool.release id port) x = holdersOf pool x := by
  simp [holdersOf]

theorem holdersOf_grants {pool pool' : Pool Hook} {ids : List LeaseId}
    (hg : Grants policy pool pool' ids) : holdersOf pool' x = holdersOf pool x + ids.count x := by
  by_cases hx : x < pool.nextId
  · have hnot : ids.count x = 0 := by
      apply List.count_eq_zero.mpr
      intro hmem
      exact absurd (hg.granted x hmem).1 (Nat.not_le.mpr hx)
    simp [holdersOf, hg.old x hx, hnot]
  · have hle := Nat.not_lt.mp hx
    have hnone := Pool.lease?_of_le hle
    by_cases hmem : x ∈ ids
    · obtain ⟨-, port, hl⟩ := hg.granted x hmem
      simp [holdersOf, hl, hnone, List.count_eq_one_of_mem hg.nodup hmem]
    · cases hl : pool'.lease? x with
      | none => simp [holdersOf, hl, hnone, List.count_eq_zero.mpr hmem]
      | some l =>
        have hzero := (hg.givenUp x l hle hmem hl).2.2
        simp [holdersOf, hl, hnone, hzero, List.count_eq_zero.mpr hmem]

end PortLease.Script
