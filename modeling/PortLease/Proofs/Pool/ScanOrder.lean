import PortLease.Proofs.Pool.Audit
import PortLease.Proofs.Pool.Room
import PortLease.Script.Machine

/-!
Where scans begin cannot be seen by a client that knows its leases by their ids. Two pools in which
different ports are leased are alike when all else is the same; every request keeps them alike, since a
scan fails just when all the ports that may be leased are taken.
-/

namespace PortLease

def Lease.unplaced {η : Type} (l : Lease η) : Lease η := { l with port := Port.lowest }

namespace Pool

variable {η : Type} {policy : Policy} {world world' : World} {a b : Pool η} {id : LeaseId}
  {p q : Port} {f : Lease η → Lease η}

structure Alike (policy : Policy) (a b : Pool η) : Prop where
  sound : a.Sound policy
  sound' : b.Sound policy
  nextId : a.nextId = b.nextId
  taken : a.takenCount = b.takenCount
  leases : ∀ id, (a.lease? id).map Lease.unplaced = (b.lease? id).map Lease.unplaced

theorem Alike.lease_none (h : Alike policy a b) (ha : a.lease? id = none) : b.lease? id = none := by
  have hb := h.leases id
  rw [ha] at hb
  exact Option.map_eq_none_iff.mp hb.symm

theorem Alike.lease_some (h : Alike policy a b) {l : Lease η} (ha : a.lease? id = some l) :
    ∃ l', b.lease? id = some l' ∧ l'.state = l.state ∧ l'.holders = l.holders := by
  have hb := h.leases id
  rw [ha] at hb
  obtain ⟨l', hl', heq⟩ := Option.map_eq_some_iff.mp hb.symm
  have hstate : l'.unplaced.state = l.unplaced.state := congrArg Lease.state heq
  have hholders : l'.unplaced.holders = l.unplaced.holders := congrArg Lease.holders heq
  exact ⟨l', hl', hstate, hholders⟩

theorem Alike.update (h : Alike policy a b) (hf : ∀ l, (f l).unplaced = f l.unplaced)
    (ha : (a.update id f).Sound policy) (hb : (b.update id f).Sound policy) :
    Alike policy (a.update id f) (b.update id f) where
  sound := ha
  sound' := hb
  nextId := by rw [nextId_update, nextId_update, h.nextId]
  taken := by
    rw [takenCount, takenCount, taken_update, taken_update]
    exact h.taken
  leases x := by
    have hmap (o : Option (Lease η)) : (o.map f).map Lease.unplaced = (o.map Lease.unplaced).map f := by
      rw [Option.map_map, Option.map_map]
      apply congrFun
      apply congrArg
      exact funext hf
    rw [lease?_update, lease?_update]
    split
    · rw [hmap, hmap, h.leases]
    · exact h.leases x

theorem Alike.lend (h : Alike policy a b) (ha : a.taken.contains p = false)
    (hp : policy.isCandidate p = true) (hb : b.taken.contains q = false)
    (hq : policy.isCandidate q = true) : Alike policy (a.lend p).2 (b.lend q).2 where
  sound := h.sound.lend ha hp
  sound' := h.sound'.lend hb hq
  nextId := by
    rw [nextId_lend, nextId_lend, h.nextId]
  taken := by
    have hsize := h.taken
    simp only [takenCount] at hsize
    simp only [takenCount, Pool.lend, PortSet.size_insert ha, PortSet.size_insert hb, hsize]
  leases x := by
    rw [lease?_lend, lease?_lend, h.nextId]
    split
    · rfl
    · exact h.leases x

theorem takenCount_release (h : a.registry[p]? = some id) (ht : a.taken.contains p = true) :
    (a.release id p).takenCount = a.takenCount - 1 := by
  rw [release, if_pos h]
  exact PortSet.size_erase ht

theorem Sound.takenCount_end (hs : a.Sound policy) {l : Lease η} (hl : a.lease? id = some l)
    (hheld : l.state = .held) :
    ((a.update id f).release id l.port).takenCount = a.takenCount - 1 := by
  have hnamed : a.registry[l.port]? = some id := (hs.registry_iff _ _).mpr ⟨l, hl, hheld, rfl⟩
  have htaken : a.taken.contains l.port = true := (hs.taken_iff _).mpr ⟨id, hnamed⟩
  rw [takenCount_release (by rwa [registry_update]) (by rwa [taken_update]), takenCount, takenCount,
    taken_update]

theorem Alike.ended (h : Alike policy a b) {l l' : Lease η} (hl : a.lease? id = some l)
    (hl' : b.lease? id = some l') (hheld : l.state = .held) (hheld' : l'.state = .held)
    (hf : ∀ l, (f l).unplaced = f l.unplaced) (hover : ∀ l, (f l).state ≠ .held) :
    Alike policy ((a.update id f).release id l.port) ((b.update id f).release id l'.port) where
  sound := h.sound.endLease hl hheld (hover l)
  sound' := h.sound'.endLease hl' hheld' (hover l')
  nextId := by rw [nextId_release, nextId_release, nextId_update, nextId_update, h.nextId]
  taken := by rw [h.sound.takenCount_end hl hheld, h.sound'.takenCount_end hl' hheld', h.taken]
  leases x := by
    have hx := h.leases x
    rw [lease?_release, lease?_release, lease?_update, lease?_update]
    split
    · rename_i heq
      subst heq
      rw [hl, hl', Option.map_some, Option.map_some, Option.some.injEq] at hx
      simp only [hl, hl', Option.map_some, hf, hx]
    · exact hx

theorem Alike.retain (h : Alike policy a b) (id : LeaseId) :
    Alike policy (a.retain id) (b.retain id) := by
  rw [retain_eq, retain_eq]
  refine h.update (fun _ => rfl) ?_ ?_
  · exact h.sound.update (fun _ => rfl) (fun _ => rfl) fun _ _ _ => Nat.succ_pos _
  · exact h.sound'.update (fun _ => rfl) (fun _ => rfl) fun _ _ _ => Nat.succ_pos _

theorem Alike.close (h : Alike policy a b) (id : LeaseId) :
    Alike policy (a.close id).2 (b.close id).2 := by
  cases hl : a.lease? id with
  | none => simpa [Pool.close, finish, hl, h.lease_none hl] using h
  | some l =>
    obtain ⟨l', hl', hstate, -⟩ := h.lease_some hl
    by_cases hheld : l.state = .held
    · rw [close_held hl hheld, close_held hl' (hstate.trans hheld)]
      exact h.ended hl hl' hheld (hstate.trans hheld) (fun _ => rfl) (by simp [finished])
    · rw [close_over hl hheld, close_over hl' (hstate ▸ hheld)]
      exact h

def drop (pool : Pool η) (id : LeaseId) : Pool η :=
  match pool.letGo id with
  | (none, pool) => pool
  | (some lease, pool) => pool.release id lease.port

theorem drop_last {l : Lease η} (hl : a.lease? id = some l) (hheld : l.state = .held)
    (hlast : l.holders ≤ 1) : a.drop id =
      (a.update id fun l => finished .reclaimed (lessHeld l)).release id l.port := by
  rw [drop, letGo_last hl hheld hlast]
  rfl

theorem drop_more {l : Lease η} (hl : a.lease? id = some l)
    (hmore : l.state = .held → 1 < l.holders) : a.drop id = a.update id lessHeld := by
  rw [drop, letGo_more hl hmore]

theorem letGo_settled (hover : ∀ l, a.lease? id = some l → l.state ≠ .held) :
    (a.letGo id).2 = a.update id lessHeld := by
  cases hl : a.lease? id with
  | none => simp [letGo, Pool.update, hl]
  | some l => rw [letGo_more hl fun hheld => absurd hheld (hover l hl)]

theorem lease?_close {l : Lease η} (hl : (a.close id).2.lease? id = some l) : l.state ≠ .held := by
  cases hold : a.lease? id with
  | none =>
    rw [Pool.close, finish, hold] at hl
    rw [hold] at hl
    cases hl
  | some k =>
    by_cases hheld : k.state = .held
    · rw [close_held hold hheld, lease?_release, lease?_update, if_pos rfl, hold] at hl
      cases hl
      simp [finished]
    · rw [close_over hold hheld, hold] at hl
      cases hl
      exact hheld

theorem Sound.less (hs : a.Sound policy) {l : Lease η} (hl : a.lease? id = some l)
    (hmore : l.state = .held → 1 < l.holders) : (a.update id lessHeld).Sound policy := by
  refine hs.update (fun _ => rfl) (fun _ => rfl) ?_
  intro k hk hheld
  obtain rfl : l = k := Option.some.inj (hl.symm.trans hk)
  have hholders := hmore hheld
  simp only [lessHeld]
  omega

theorem Alike.less (h : Alike policy a b) {l l' : Lease η} (hl : a.lease? id = some l)
    (hl' : b.lease? id = some l') (hmore : l.state = .held → 1 < l.holders)
    (hmore' : l'.state = .held → 1 < l'.holders) :
    Alike policy (a.update id lessHeld) (b.update id lessHeld) :=
  h.update (fun _ => rfl) (h.sound.less hl hmore) (h.sound'.less hl' hmore')

theorem Alike.giveUp (h : Alike policy a b) (id : LeaseId) :
    Alike policy (a.giveUp id) (b.giveUp id) := by
  have hclosed := h.close id
  have hsound {k : Pool η} (hk : (k.close id).2.Sound policy) :
      ((k.close id).2.update id lessHeld).Sound policy := by
    refine hk.update (fun _ => rfl) (fun _ => rfl) ?_
    intro l hl hheld
    exact absurd hheld (lease?_close hl)
  rw [Pool.giveUp, Pool.giveUp, letGo_settled fun _ => lease?_close,
    letGo_settled fun _ => lease?_close]
  exact hclosed.update (fun _ => rfl) (hsound hclosed.sound) (hsound hclosed.sound')

theorem Alike.drop (h : Alike policy a b) (id : LeaseId) : Alike policy (a.drop id) (b.drop id) := by
  cases hl : a.lease? id with
  | none => simpa [Pool.drop, letGo, hl, h.lease_none hl] using h
  | some l =>
    obtain ⟨l', hl', hstate, hholders⟩ := h.lease_some hl
    by_cases hlast : l.state = .held ∧ l.holders ≤ 1
    · obtain ⟨hheld, hlast⟩ := hlast
      rw [drop_last hl hheld hlast, drop_last hl' (hstate.trans hheld) (hholders.trans_le hlast)]
      exact h.ended hl hl' hheld (hstate.trans hheld) (fun _ => rfl) (by simp [finished])
    · have hmore : l.state = .held → 1 < l.holders := by
        intro hheld
        exact Nat.lt_of_not_le fun hle => hlast ⟨hheld, hle⟩
      have hmore' : l'.state = .held → 1 < l'.holders := by rwa [hstate, hholders]
      rw [drop_more hl hmore, drop_more hl' hmore']
      exact h.less hl hl' hmore hmore'

theorem Sound.takenCount_eq (hs : a.Sound policy) :
    a.takenCount = policy.capacity ↔ ∀ p, a.taken.contains p = true ∨ policy.isCandidate p = false := by
  rw [takenCount, hs.counted, ← policy.card_candidates]
  constructor
  · intro hcard p
    have hall := Finset.eq_of_subset_of_card_le hs.members_subset hcard.ge
    by_cases hp : policy.isCandidate p = true
    · left
      rw [← PortSet.mem_members, hall]
      simpa [Policy.candidates] using hp
    · exact .inr (Bool.not_eq_true _ ▸ hp)
  · intro hall
    apply congrArg Finset.card
    apply hs.members_subset.antisymm
    intro p hp
    have hcandidate : policy.isCandidate p = true := by simpa [Policy.candidates] using hp
    apply PortSet.mem_members.mpr
    exact (hall p).resolve_right (by rw [hcandidate]; exact Bool.noConfusion)

variable {c d : Course η}

theorem find?_first_none (hs : a.Sound policy) (start : Port) :
    (a.taken.find? start fun p => policy.isCandidate p && !PortSet.empty.contains p) = none ↔
      a.takenCount = policy.capacity := by
  rw [PortSet.find?_none_iff, hs.takenCount_eq]
  simp [PortSet.contains_empty]

theorem reserveAny_full (hs : c.pool.Sound policy) (hfull : c.pool.takenCount = policy.capacity) :
    c.reserveAny policy world = (.error ⟨0⟩, { c with asked.scans := c.asked.scans + 1 }) := by
  obtain ⟨pool, asked, log⟩ := c
  have hfind := (find?_first_none hs (world.scanStart asked.scans)).mpr hfull
  simp only [Course.reserveAny, Course.scan, hfind]
  rfl

theorem reserveAny_free (hprobe : policy.probeBind = false) (hs : c.pool.Sound policy)
    (hfree : c.pool.takenCount ≠ policy.capacity) :
    ∃ p, c.pool.taken.contains p = false ∧ policy.isCandidate p = true ∧
      c.reserveAny policy world = (.ok c.pool.nextId, ⟨(c.pool.lend p).2,
        { c.asked with scans := c.asked.scans + 1 }, .reservedFree p c.pool.nextId :: c.log⟩) := by
  obtain ⟨pool, asked, log⟩ := c
  have hfind := mt (find?_first_none hs (world.scanStart asked.scans)).mp hfree
  obtain ⟨p, hp⟩ := Option.ne_none_iff_exists'.mp hfind
  obtain ⟨hclear, heligible⟩ := PortSet.find?_some hp
  simp only [Bool.and_eq_true] at heligible
  refine ⟨p, hclear, heligible.1, ?_⟩
  simp only [Course.reserveAny, Course.scan, hp, hprobe]
  rfl

theorem reserveAny_fails_iff (hprobe : policy.probeBind = false) (hs : c.pool.Sound policy) :
    (∃ e, (c.reserveAny policy world).1 = .error e) ↔ c.pool.takenCount = policy.capacity := by
  by_cases hfull : c.pool.takenCount = policy.capacity
  · rw [reserveAny_full hs hfull]
    exact iff_of_true ⟨_, rfl⟩ hfull
  · obtain ⟨p, -, -, hany⟩ := @reserveAny_free η policy world c hprobe hs hfull
    rw [hany]
    exact iff_of_false nofun hfull

namespace Course

def issued (course : Course η) : List LeaseId := LogRecord.additions course.log

structure Alike (policy : Policy) (c d : Course η) : Prop where
  pool : Pool.Alike policy c.pool d.pool
  issued : c.issued = d.issued

theorem Alike.reserveAny (hprobe : policy.probeBind = false) (h : Alike policy c d) :
    (c.reserveAny policy world).1 = (d.reserveAny policy world').1 ∧
      Alike policy (c.reserveAny policy world).2 (d.reserveAny policy world').2 := by
  by_cases hfull : c.pool.takenCount = policy.capacity
  · rw [reserveAny_full h.pool.sound hfull, reserveAny_full h.pool.sound' (h.pool.taken ▸ hfull)]
    exact ⟨rfl, h.pool, h.issued⟩
  · obtain ⟨p, hp, hpc, hc⟩ := @reserveAny_free η policy world c hprobe h.pool.sound hfull
    obtain ⟨q, hq, hqc, hd⟩ :=
      @reserveAny_free η policy world' d hprobe h.pool.sound' (h.pool.taken ▸ hfull)
    rw [hc, hd, h.pool.nextId]
    refine ⟨rfl, h.pool.lend hp hpc hq hqc, ?_⟩
    exact congrArg (d.pool.nextId :: ·) h.issued

theorem issued_discard (id : LeaseId) : (c.discard id).issued = c.issued := by
  obtain ⟨pool, asked, log⟩ := c
  simp only [discard]
  rcases pool.close id with ⟨_ | l, pool⟩ <;> rfl

theorem Alike.discard (h : Alike policy c d) (id : LeaseId) :
    Alike policy (c.discard id) (d.discard id) where
  pool := by
    rw [pool_discard, pool_discard]
    exact h.pool.giveUp id
  issued := by rw [issued_discard, issued_discard, h.issued]

theorem Alike.discardAll (h : Alike policy c d) (ids : List LeaseId) :
    Alike policy (ids.foldl Course.discard c) (ids.foldl Course.discard d) := by
  induction ids generalizing c d with
  | nil => exact h
  | cons id ids ih => exact ih (h.discard id)

theorem Alike.reserveMore (hprobe : policy.probeBind = false) (h : Alike policy c d) (left : Nat)
    (ids : List LeaseId) :
    (c.reserveMore policy world left ids).1 = (d.reserveMore policy world' left ids).1 ∧
      Alike policy (c.reserveMore policy world left ids).2
        (d.reserveMore policy world' left ids).2 := by
  induction left generalizing c d ids with
  | zero => exact ⟨rfl, h⟩
  | succ left ih =>
    obtain ⟨hresult, hafter⟩ := @Alike.reserveAny η policy world world' c d hprobe h
    unfold Course.reserveMore
    generalize c.reserveAny policy world = first at hresult hafter ⊢
    generalize d.reserveAny policy world' = second at hresult hafter ⊢
    obtain ⟨result, c'⟩ := first
    obtain ⟨_, d'⟩ := second
    obtain rfl : result = _ := hresult
    cases result with
    | ok id => exact ih hafter (id :: ids)
    | error e =>
      refine ⟨rfl, ?_⟩
      have hnoted : Alike policy (c'.note (.rollingBack ids.length (e.toError policy)))
          (d'.note (.rollingBack ids.length (e.toError policy))) := ⟨hafter.pool, hafter.issued⟩
      exact hnoted.discardAll ids.reverse

end Course

/-- What a client asks for who knows its leases by their ids. -/
inductive Request where
  | reserveAny
  | reserveMany (count : Int)
  | clone (id : LeaseId)
  | close (id : LeaseId)
  | drop (id : LeaseId)

inductive Reply where
  | leased (ids : List LeaseId)
  | refused (error : PortError)
  | done
  | unknown
  deriving DecidableEq

namespace Course

def close : Course η → LeaseId → Course η
  | ⟨pool, asked, log⟩, id =>
    match pool.close id with
    | (none, pool) => ⟨pool, asked, log⟩
    | (some lease, pool) => ⟨pool, asked, .released lease.port id :: log⟩

def drop : Course η → LeaseId → Course η
  | ⟨pool, asked, log⟩, id =>
    match pool.letGo id with
    | (none, pool) => ⟨pool, asked, log⟩
    | (some lease, pool) => ⟨pool.release id lease.port, asked, .reclaiming lease.port id :: log⟩

def clone (course : Course η) (id : LeaseId) : Course η :=
  { course with pool := course.pool.retain id }

def whenHeld (course : Course η) (id : LeaseId) (act : Course η → LeaseId → Course η) :
    Reply × Course η :=
  if (course.pool.lease? id).any fun lease => 0 < lease.holders then (.done, act course id)
  else (.unknown, course)

def serve (policy : Policy) (world : World) (course : Course η) : Request → Reply × Course η
  | .reserveAny =>
    match course.reserveAny policy world with
    | (.ok id, course) => (.leased [id], course)
    | (.error e, course) => (.refused (e.toError policy), course)
  | .reserveMany count =>
    match checkCount count with
    | .error bad => (.refused bad.toError, course)
    | .ok count =>
      match course.reserveMore policy world count [] with
      | (.ok ids, course) => (.leased ids, course)
      | (.error e, course) => (.refused (e.toError policy), course)
  | .clone id => course.whenHeld id clone
  | .close id => course.whenHeld id close
  | .drop id => course.whenHeld id drop

/-- What a client sees of one request: the reply, the ids issued so far, and how many ports are taken. -/
structure Sight where
  reply : Reply
  issued : List LeaseId
  taken : Nat
  deriving DecidableEq

def sights (policy : Policy) (world : World) : List Request → Course η → List Sight
  | [], _ => []
  | request :: requests, course =>
    let (reply, course) := course.serve policy world request
    ⟨reply, course.issued, course.pool.takenCount⟩ :: sights policy world requests course

def serveAll (policy : Policy) (world : World) (course : Course η) (requests : List Request) :
    Course η :=
  requests.foldl (fun course request => (course.serve policy world request).2) course

def fresh : Course η := ⟨.empty, {}, []⟩

theorem pool_close (id : LeaseId) : (c.close id).pool = (c.pool.close id).2 := by
  obtain ⟨pool, asked, log⟩ := c
  simp only [close]
  rcases pool.close id with ⟨_ | l, pool⟩ <;> rfl

theorem pool_drop (id : LeaseId) : (c.drop id).pool = c.pool.drop id := by
  obtain ⟨pool, asked, log⟩ := c
  simp only [drop, Pool.drop]
  rcases pool.letGo id with ⟨_ | l, pool⟩ <;> rfl

theorem issued_close (id : LeaseId) : (c.close id).issued = c.issued := by
  obtain ⟨pool, asked, log⟩ := c
  simp only [close]
  rcases pool.close id with ⟨_ | l, pool⟩ <;> rfl

theorem issued_drop (id : LeaseId) : (c.drop id).issued = c.issued := by
  obtain ⟨pool, asked, log⟩ := c
  simp only [drop]
  rcases pool.letGo id with ⟨_ | l, pool⟩ <;> rfl

theorem Alike.whenHeld (h : Alike policy c d) (id : LeaseId)
    {act : Course η → LeaseId → Course η} (hact : Alike policy (act c id) (act d id)) :
    (c.whenHeld id act).1 = (d.whenHeld id act).1 ∧
      Alike policy (c.whenHeld id act).2 (d.whenHeld id act).2 := by
  have hany (o : Option (Lease η)) : (o.any fun l => 0 < l.holders) =
      ((o.map Lease.unplaced).any fun l => 0 < l.holders) := by
    cases o <;> rfl
  unfold Course.whenHeld
  rw [hany, hany (d.pool.lease? id), h.pool.leases]
  split
  · exact ⟨rfl, hact⟩
  · exact ⟨rfl, h⟩

theorem Alike.serve (hprobe : policy.probeBind = false) (h : Alike policy c d)
    (request : Request) :
    (c.serve policy world request).1 = (d.serve policy world' request).1 ∧
      Alike policy (c.serve policy world request).2 (d.serve policy world' request).2 := by
  cases request with
  | reserveAny =>
    obtain ⟨hresult, hafter⟩ := @Alike.reserveAny η policy world world' c d hprobe h
    unfold Course.serve
    generalize c.reserveAny policy world = first at hresult hafter ⊢
    generalize d.reserveAny policy world' = second at hresult hafter ⊢
    obtain ⟨result, c'⟩ := first
    obtain ⟨_, d'⟩ := second
    obtain rfl : result = _ := hresult
    cases result <;> exact ⟨rfl, hafter⟩
  | reserveMany number =>
    cases hcount : checkCount number with
    | error bad =>
      simp only [Course.serve, hcount]
      exact ⟨trivial, h⟩
    | ok count =>
      obtain ⟨hresult, hafter⟩ := @Alike.reserveMore η policy world world' c d hprobe h count []
      simp only [Course.serve, hcount]
      generalize c.reserveMore policy world count [] = first at hresult hafter ⊢
      generalize d.reserveMore policy world' count [] = second at hresult hafter ⊢
      obtain ⟨result, c'⟩ := first
      obtain ⟨_, d'⟩ := second
      obtain rfl : result = _ := hresult
      cases result <;> exact ⟨rfl, hafter⟩
  | clone id => exact h.whenHeld id ⟨h.pool.retain id, h.issued⟩
  | close id =>
    apply h.whenHeld id
    constructor
    · rw [pool_close, pool_close]
      exact h.pool.close id
    · rw [issued_close, issued_close, h.issued]
  | drop id =>
    apply h.whenHeld id
    constructor
    · rw [pool_drop, pool_drop]
      exact h.pool.drop id
    · rw [issued_drop, issued_drop, h.issued]

theorem Alike.sights (hprobe : policy.probeBind = false) (h : Alike policy c d)
    (requests : List Request) :
    sights policy world requests c = Course.sights policy world' requests d := by
  induction requests generalizing c d with
  | nil => rfl
  | cons request requests ih =>
    obtain ⟨hreply, hafter⟩ := @Alike.serve η policy world world' c d hprobe h request
    simp only [Course.sights]
    rw [hreply, ih hafter, hafter.issued, hafter.pool.taken]

theorem Alike.refl (hs : c.pool.Sound policy) : Alike policy c c :=
  ⟨⟨hs, hs, rfl, rfl, fun _ => rfl⟩, rfl⟩

theorem sound_serveAll (hprobe : policy.probeBind = false) (hs : c.pool.Sound policy)
    (requests : List Request) : (c.serveAll policy world requests).pool.Sound policy := by
  induction requests generalizing c with
  | nil => exact hs
  | cons request requests ih =>
    obtain ⟨-, hafter⟩ := @Alike.serve η policy world world c c hprobe (.refl hs) request
    exact ih hafter.pool.sound

end Course

theorem scan_order_unobservable (hprobe : policy.probeBind = false) (world world' : World)
    (requests : List Request) :
    Course.sights policy world requests (Course.fresh : Course η) =
        Course.sights policy world' requests (Course.fresh : Course η) ∧
      ∀ course : Course η, course = Course.fresh.serveAll policy world requests →
        ((∃ e, (course.serve policy world .reserveAny).1 = .refused e) ↔
          course.pool.takenCount = policy.capacity) := by
  have hfresh : (Course.fresh : Course η).pool.Sound policy := sound_empty
  constructor
  · exact (Course.Alike.refl hfresh).sights hprobe requests
  · rintro course rfl
    rw [← @reserveAny_fails_iff η policy world _ hprobe (Course.sound_serveAll hprobe hfresh requests)]
    rw [Course.serve]
    generalize (Course.fresh.serveAll policy world requests).reserveAny policy world = answer
    obtain ⟨result, course⟩ := answer
    cases result with
    | ok id => exact iff_of_false nofun nofun
    | error e => exact iff_of_true ⟨_, rfl⟩ ⟨_, rfl⟩

theorem scan_order_unobservable_twoPorts :
    (⟨⟨1026, 65535⟩, false, true⟩ : Policy).probeBind = false ∧
      let low : World := ⟨fun _ => 1024, fun _ _ => true⟩
      let high : World := ⟨fun _ => 1025, fun _ _ => true⟩
      let requests : List Request := [.reserveMany 3, .reserveAny, .clone 3, .reserveAny, .reserveAny,
        .drop 3, .reserveAny, .close 3, .reserveAny, .drop 4]
      Course.sights ⟨⟨1026, 65535⟩, false, true⟩ low requests (Course.fresh : Course Unit) =
          Course.sights ⟨⟨1026, 65535⟩, false, true⟩ high requests (Course.fresh : Course Unit) ∧
        ∀ course : Course Unit,
          course = Course.fresh.serveAll ⟨⟨1026, 65535⟩, false, true⟩ low requests →
            ((∃ e, (course.serve ⟨⟨1026, 65535⟩, false, true⟩ low .reserveAny).1 = .refused e) ↔
              course.pool.takenCount = (⟨⟨1026, 65535⟩, false, true⟩ : Policy).capacity) :=
  ⟨rfl, scan_order_unobservable rfl _ _ _⟩

end Pool

namespace Script.Machine

variable {m : Machine}

theorem close_course (id : LeaseId) (verify : Bool) : ∃ frames,
    m.close id verify = { m.join (m.course.close id) with stack := frames ++ m.stack } := by
  cases hclose : m.pool.close id with
  | mk lease pool =>
    simp only [close, Pool.Course.close, course, hclose]
    cases lease with
    | none => exact ⟨[], rfl⟩
    | some lease => exact ⟨[.hooks id lease.port 0 lease.hooks [] (.close verify)], rfl⟩

theorem letGo_course (id : LeaseId) : ∃ frames,
    m.letGo id = { m.join (m.course.drop id) with stack := frames ++ m.stack } := by
  cases hgone : m.pool.letGo id with
  | mk lease pool =>
    simp only [letGo, Pool.Course.drop, course, hgone]
    cases lease with
    | none => exact ⟨[], rfl⟩
    | some lease => exact ⟨[.hooks id lease.port 0 lease.hooks [] .reclaim], rfl⟩

theorem copy_course (id : LeaseId) (slot : Slot) : ∃ frames,
    m.copy id slot = { m.join (m.course.clone id) with stack := frames ++ m.stack } :=
  ⟨[.handOver [(some slot, id)]], rfl⟩

end Script.Machine

end PortLease
