import PortLease.Proofs.Pool.Room

/-!
The scan for any port. It comes to its end whatever can be bound, and it takes the first usable port of
the round from its start: each port that is free and cannot be bound costs one lease on the way, so the
id of the new lease tells how many were skipped. It fails if no port is usable, and has then skipped all
that are free.
-/

namespace PortLease.Pool

variable {η : Type} {policy : Policy} {world : World} {scanStart : Nat → Port}
  {bindable : Port → Bool} {pool : Pool η} {course : Course η} {busy : PortSet} {start p q : Port}
  {now : Pool η} {k : Nat} {result : Except Exhausted LeaseId × Course η}

def next? (policy : Policy) (pool : Pool η) (busy : PortSet) (start : Port) : Option Port :=
  pool.taken.find? start fun p => policy.isCandidate p && !busy.contains p

/-- A scan comes to its end: it finds no port, or one that it may keep, or it goes on behind a port that
is bound elsewhere. -/
inductive Course.Scans (policy : Policy) (world : World) :
    PortSet → Port → Course η → Except Exhausted LeaseId × Course η → Prop
  | exhausted {busy : PortSet} {start : Port} {course : Course η}
      (hfind : course.pool.next? policy busy start = none) :
      Scans policy world busy start course (.error ⟨busy.size⟩, course)
  | unprobed {busy : PortSet} {start port : Port} {pool : Pool η} {asked : Asked}
      {log : List LogRecord}
      (hfind : pool.next? policy busy start = some port)
      (hprobe : policy.probeBind = false) :
      Scans policy world busy start ⟨pool, asked, log⟩
        (.ok pool.nextId,
          ⟨(pool.lend port).2, asked, .reservedFree port pool.nextId :: log⟩)
  | bound {busy : PortSet} {start port : Port} {pool : Pool η} {asked : Asked}
      {log : List LogRecord}
      (hfind : pool.next? policy busy start = some port)
      (hprobe : policy.probeBind = true) (hbind : world.bindable asked.probes port = true) :
      Scans policy world busy start ⟨pool, asked, log⟩
        (.ok pool.nextId,
          ⟨(pool.lend port).2, { asked with probes := asked.probes + 1 },
            .reservedFree port pool.nextId :: log⟩)
  | skipped {busy : PortSet} {start port : Port} {pool : Pool η} {asked : Asked}
      {log : List LogRecord} {result : Except Exhausted LeaseId × Course η}
      (hfind : pool.next? policy busy start = some port)
      (hprobe : policy.probeBind = true) (hbind : world.bindable asked.probes port = false)
      (hrest : Scans policy world (busy.insert port) (port + 1)
        (Course.discard ⟨(pool.lend port).2, { asked with probes := asked.probes + 1 },
          .boundElsewhere port :: log⟩ pool.nextId) result) :
      Scans policy world busy start ⟨pool, asked, log⟩ result

theorem scan_scans (tries : Nat) (hcounted : busy.Counted) (htries : 65536 < tries + busy.size) :
    Course.Scans policy world busy start course (course.scan policy world tries busy start) := by
  induction tries generalizing busy start course with
  | zero =>
    have hsize : busy.size ≤ 65536 := by
      rw [hcounted]
      exact (Finset.card_le_univ busy.members).trans_eq (Fintype.card_fin 65536)
    omega
  | succ tries ih =>
    obtain ⟨pool, asked, log⟩ := course
    unfold Course.scan
    split
    · exact .exhausted ‹_›
    · rename_i port hfind
      obtain ⟨-, heligible⟩ := PortSet.find?_some hfind
      have hnew : busy.contains port = false := by
        simpa using (Bool.and_eq_true_iff.mp heligible).2
      simp only [lend_fst]
      split
      · rename_i hprobe
        split
        · exact .bound hfind hprobe ‹_›
        · refine .skipped hfind hprobe (Bool.eq_false_iff.mpr ‹_›) (ih (hcounted.insert port) ?_)
          rw [PortSet.size_insert hnew]
          omega
      · exact .unprobed hfind (Bool.eq_false_iff.mpr ‹_›)

def skippedPorts (policy : Policy) (bindable : Port → Bool) (pool : Pool η) (start p : Port) :
    Finset Port :=
  Finset.univ.filter fun q =>
    Port.ahead start q < Port.ahead start p ∧ pool.isFree policy q = true ∧ bindable q = false

inductive ScanEnds (policy : Policy) (bindable : Port → Bool) (pool : Pool η) (start : Port) :
    Except Exhausted LeaseId → Pool η → Prop
  | found {p : Port} {id : LeaseId} {after : Pool η}
      (hfirst : Port.First start (fun q => pool.isUsable policy bindable q = true) p)
      (hid : id = pool.nextId + (pool.skippedPorts policy bindable start p).card)
      (hlease : after.lease? id = some { port := p }) :
      ScanEnds policy bindable pool start (.ok id) after
  | exhausted {e : Exhausted} {after : Pool η}
      (hnone : ∀ q, pool.isUsable policy bindable q = false)
      (hbusy : e.busy = (pool.freePorts policy).card) :
      ScanEnds policy bindable pool start (.error e) after

/-- What a scan from `start` has come to after `k` steps of the round: no port before is usable, those
that are free are busy, and the pool is as it was, but for a lease that is over for each of them. -/
structure Scanned (policy : Policy) (bindable : Port → Bool) (pool : Pool η) (start : Port) (k : Nat)
    (busy : PortSet) (now : Pool η) : Prop where
  counted : busy.Counted
  busy_iff : ∀ q, busy.contains q = true ↔ Port.ahead start q < k ∧ pool.isFree policy q = true
  past : ∀ q, Port.ahead start q < k → pool.isUsable policy bindable q = false
  grants : Grants policy pool now []
  nextId : now.nextId = pool.nextId + busy.size

structure NextFree (policy : Policy) (pool : Pool η) (start : Port) (k : Nat) (p : Port) : Prop where
  behind : k ≤ Port.ahead start p
  free : pool.isFree policy p = true
  between : ∀ q, k ≤ Port.ahead start q → Port.ahead start q < Port.ahead start p →
    pool.isFree policy q = false

theorem bindable_eq_false (hfree : pool.isFree policy p = true)
    (h : pool.isUsable policy bindable p = false) : bindable p = false := by
  rw [isUsable, hfree, Bool.true_and, Bool.or_eq_false_iff] at h
  exact h.2

theorem Scanned.begin (hs : pool.Sound policy) :
    Scanned policy bindable pool start 0 .empty pool where
  counted := PortSet.counted_empty
  busy_iff q := by simp [PortSet.contains_empty]
  past q hq := absurd hq (Nat.not_lt_zero _)
  grants := .refl hs
  nextId := rfl

section Steps

variable (hs : pool.Sound policy) (h : Scanned policy bindable pool start k busy now)

include hs h

theorem Scanned.isOpen_iff :
    now.taken.isOpen (fun p => policy.isCandidate p && !busy.contains p) q = true ↔
      k ≤ Port.ahead start q ∧ pool.isFree policy q = true := by
  have hbusy : busy.contains q = false ↔ ¬ (Port.ahead start q < k ∧ pool.isFree policy q = true) := by
    rw [← h.busy_iff, Bool.not_eq_true]
  rw [PortSet.isOpen_iff, (h.grants.restored hs).taken, Bool.and_eq_true, Bool.not_eq_true', hbusy,
    Pool.isFree_iff]
  constructor
  · rintro ⟨hclear, hcandidate, hnew⟩
    exact ⟨Nat.le_of_not_lt fun hlt => hnew ⟨hlt, hcandidate, hclear⟩, hcandidate, hclear⟩
  · rintro ⟨hle, hcandidate, hclear⟩
    exact ⟨hclear, hcandidate, fun hlt => absurd hlt.1 (Nat.not_lt.mpr hle)⟩

theorem Scanned.next (hfind : now.next? policy busy (start + Fin.ofNat 65536 k) = some p) :
    NextFree policy pool start k p := by
  obtain ⟨hopen, hbefore⟩ := PortSet.find?_eq_some_iff.mp hfind
  obtain ⟨hle, hfree⟩ := (h.isOpen_iff hs).mp hopen
  refine ⟨hle, hfree, fun q hq hlt => Bool.eq_false_iff.mpr fun hqfree => ?_⟩
  refine hbefore q ?_ ((h.isOpen_iff hs).mpr ⟨hq, hqfree⟩)
  rw [Port.ahead_sub hq, Port.ahead_sub hle]
  omega

theorem Scanned.exhausted {here : Port} (hfind : now.next? policy busy here = none) :
    ScanEnds policy bindable pool start (.error ⟨busy.size⟩) now := by
  have hbusy (q : Port) (hq : pool.isFree policy q = true) : busy.contains q = true := by
    have hshut : now.taken.isOpen (fun p => policy.isCandidate p && !busy.contains p) q = false :=
      PortSet.isOpen_eq_false_iff.mpr (PortSet.find?_none_iff.mp hfind q)
    rw [Bool.eq_false_iff, ne_eq, h.isOpen_iff hs] at hshut
    exact (h.busy_iff q).mpr ⟨Nat.lt_of_not_le fun hk => hshut ⟨hk, hq⟩, hq⟩
  have hsize : busy.size = (pool.freePorts policy).card := by
    rw [h.counted]
    apply congrArg Finset.card
    ext q
    rw [PortSet.mem_members, mem_freePorts]
    exact ⟨fun hq => ((h.busy_iff q).mp hq).2, hbusy q⟩
  refine .exhausted (fun q => ?_) hsize
  by_cases hq : pool.isFree policy q = true
  · exact h.past q ((h.busy_iff q).mp (hbusy q hq)).1
  · exact isUsable_of_isFree_false (Bool.eq_false_iff.mpr hq)

omit hs

theorem Scanned.passed (hp : NextFree policy pool start k p)
    (hq : Port.ahead start q < Port.ahead start p) : pool.isUsable policy bindable q = false := by
  by_cases hk : Port.ahead start q < k
  · exact h.past q hk
  · exact isUsable_of_isFree_false (hp.between q (Nat.le_of_not_lt hk) hq)

theorem Scanned.busy_iff_ahead (hp : NextFree policy pool start k p) : busy.contains q = true ↔
    Port.ahead start q < Port.ahead start p ∧ pool.isFree policy q = true := by
  rw [h.busy_iff]
  constructor
  · rintro ⟨hlt, hq⟩
    exact ⟨hlt.trans_le hp.behind, hq⟩
  · rintro ⟨hlt, hq⟩
    refine ⟨Nat.lt_of_not_le fun hk => ?_, hq⟩
    rw [hp.between q hk hlt] at hq
    cases hq

theorem Scanned.size (hp : NextFree policy pool start k p) :
    busy.size = (pool.skippedPorts policy bindable start p).card := by
  rw [h.counted]
  apply congrArg Finset.card
  ext q
  rw [PortSet.mem_members, h.busy_iff_ahead hp, skippedPorts, Finset.mem_filter_univ]
  constructor
  · rintro ⟨hlt, hq⟩
    exact ⟨hlt, hq, bindable_eq_false hq (h.passed hp hlt)⟩
  · rintro ⟨hlt, hq, -⟩
    exact ⟨hlt, hq⟩

theorem Scanned.found (hp : NextFree policy pool start k p)
    (husable : pool.isUsable policy bindable p = true) :
    ScanEnds policy bindable pool start (.ok now.nextId) (now.lend p).2 := by
  refine .found ⟨husable, fun q hq => ?_⟩ ?_ ?_
  · rw [h.passed hp hq]
    exact Bool.false_ne_true
  · rw [h.nextId, h.size hp]
  · rw [lease?_lend, if_pos rfl]

include hs

theorem Scanned.skip (hp : NextFree policy pool start k p)
    (hunusable : pool.isUsable policy bindable p = false) :
    Scanned policy bindable pool start (Port.ahead start p + 1) (busy.insert p)
      ((now.lend p).2.giveUp now.nextId) := by
  have hnew : busy.contains p = false := by
    rw [Bool.eq_false_iff, ne_eq, h.busy_iff_ahead hp]
    exact fun hlt => absurd hlt.1 (Nat.lt_irrefl _)
  have hstep (q : Port) : Port.ahead start q < Port.ahead start p + 1 ↔
      q = p ∨ Port.ahead start q < Port.ahead start p := by
    rw [Nat.lt_succ_iff_lt_or_eq, or_comm]
    exact or_congr_left ⟨Port.ahead_inj, fun heq => heq ▸ rfl⟩
  constructor
  · exact h.counted.insert p
  · intro q
    rw [PortSet.contains_insert, Bool.or_eq_true, decide_eq_true_eq, h.busy_iff_ahead hp, hstep,
      or_and_right]
    exact or_congr_left (iff_self_and.mpr fun heq => heq ▸ hp.free)
  · intro q hq
    obtain rfl | hlt := (hstep q).mp hq
    · exact hunusable
    · exact h.passed hp hlt
  · -- The lease came and is over, so the pool is still as it was at the start.
    obtain ⟨hcandidate, hclear⟩ := isFree_iff.mp hp.free
    rw [← (h.grants.restored hs).taken] at hclear
    exact (h.grants.lend hclear hcandidate).giveUp_head
  · have hheld : (now.lend p).2.lease? now.nextId = some { port := p } := by
      rw [lease?_lend, if_pos rfl]
    rw [nextId_giveUp hheld rfl, nextId_lend, h.nextId, PortSet.size_insert hnew, Nat.add_assoc]

end Steps

theorem Course.Scans.ends (hs : pool.Sound policy) {here : Port}
    (hscan : course.Scans policy (.steady scanStart bindable) busy here result)
    (hhere : here = start + Fin.ofNat 65536 k)
    (h : Scanned policy bindable pool start k busy course.pool) :
    ScanEnds policy bindable pool start result.1 result.2.pool := by
  induction hscan generalizing k with
  | exhausted hfind => exact h.exhausted hs hfind
  | unprobed hfind hprobe =>
    subst hhere
    have hp := h.next hs hfind
    refine h.found hp ?_
    rw [isUsable_unprobed hprobe, hp.free]
  | bound hfind hprobe hbind =>
    subst hhere
    have hp := h.next hs hfind
    refine h.found hp ?_
    rw [isUsable, hp.free, show bindable _ = true from hbind, Bool.or_true, Bool.and_true]
  | @skipped busy here p now asked log result hfind hprobe hbind hrest ih =>
    subst hhere
    have hp := h.next hs hfind
    have hunusable : pool.isUsable policy bindable p = false := by
      rw [isUsable, hprobe, show bindable p = false from hbind, Bool.not_true, Bool.or_false,
        Bool.and_false]
    refine ih ?_ (h.skip hs hp hunusable)
    rw [← Port.add_ofNat, Port.add_ahead]
    rfl

theorem reserveAny_scans : Course.Scans policy world .empty (world.scanStart course.asked.scans)
    { course with asked.scans := course.asked.scans + 1 } (course.reserveAny policy world) :=
  scan_scans (Port.count + 1) PortSet.counted_empty (by decide)

theorem reserveAny_ends (hs : course.pool.Sound policy) :
    ScanEnds policy bindable course.pool (scanStart course.asked.scans)
      (course.reserveAny policy (.steady scanStart bindable)).1
      (course.reserveAny policy (.steady scanStart bindable)).2.pool := by
  refine reserveAny_scans.ends hs ?_ (.begin hs)
  apply Fin.ext
  simp [World.steady]

theorem reserveAny_adds (hs : course.pool.Sound policy) {id : LeaseId} {after : Course η}
    (h : course.reserveAny policy world = (.ok id, after))
    (hlease : after.pool.lease? id = some { port := p }) :
    Adds policy course.pool after.pool [(p, id)] := by
  have hg : Grants policy course.pool (course.reserveAny policy world).2.pool _ :=
    reserveAny_grants (.refl hs)
  rw [h] at hg
  refine @Grants.adds η policy course.pool after.pool hs [(p, id)] hg fun port other hmem => ?_
  obtain ⟨rfl, rfl⟩ := Prod.mk.inj (List.mem_singleton.mp hmem)
  exact hlease

theorem reserveAny_restores (hs : course.pool.Sound policy) {e : Exhausted} {after : Course η}
    (h : course.reserveAny policy world = (.error e, after)) : course.pool.Restored after.pool := by
  have hg : Grants policy course.pool (course.reserveAny policy world).2.pool _ :=
    reserveAny_grants (.refl hs)
  rw [h] at hg
  exact hg.restored hs

def exhaustedText (policy : Policy) (busy : Nat) : String :=
  "no free port in 1024-65535 outside the ephemeral range " ++
    s!"{policy.excluded.text} ({busy} in use by other processes)"

/-- The first usable port of the round from `start` is leased; the new id counts the ports that could not
be bound on the way. The request fails just when no port is usable, and then all free ports are in use by
others. -/
structure TakesFirst (policy : Policy) (bindable : Port → Bool) (pool : Pool η) (start : Port)
    (result : Except Exhausted LeaseId) (after : Pool η) : Prop where
  granted_iff : ∀ id, result = .ok id ↔
    ∃ p, Port.First start (fun q => pool.isUsable policy bindable q = true) p ∧
      id = pool.nextId + (pool.skippedPorts policy bindable start p).card
  adds : ∀ p id, Port.First start (fun q => pool.isUsable policy bindable q = true) p →
    result = .ok id → pool.Adds policy after [(p, id)]
  refused_iff : ∀ e, result = .error e ↔
    (∀ p, pool.isUsable policy bindable p = false) ∧ e.busy = (pool.freePorts policy).card
  refusal : ∀ e, result = .error e →
    e.toError policy = .portsExhausted (exhaustedText policy (pool.freePorts policy).card)
  restored : ∀ e, result = .error e → pool.Restored after

theorem not_first_usable (hnone : ∀ q, pool.isUsable policy bindable q = false) :
    ¬ Port.First start (fun q => pool.isUsable policy bindable q = true) p := by
  intro hfirst
  have husable := hfirst.here
  rw [hnone p] at husable
  cases husable

theorem takesFirst_granted {id : LeaseId} {after : Pool η}
    (hfirst : Port.First start (fun q => pool.isUsable policy bindable q = true) p)
    (hid : id = pool.nextId + (pool.skippedPorts policy bindable start p).card)
    (hadds : pool.Adds policy after [(p, id)]) :
    TakesFirst policy bindable pool start (.ok id) after where
  granted_iff x := by
    rw [Except.ok.injEq]
    constructor
    · intro heq
      exact ⟨p, hfirst, heq ▸ hid⟩
    · rintro ⟨q, hq, hx⟩
      rw [hx, hid, hfirst.unique hq]
  adds q x hq hx := by
    obtain rfl := Except.ok.inj hx
    rwa [hq.unique hfirst]
  refused_iff e := by
    simp only [reduceCtorEq, false_iff, not_and]
    exact fun hnone => absurd hfirst (not_first_usable hnone)
  refusal _ he := by cases he
  restored _ he := by cases he

theorem takesFirst_refused {e : Exhausted} {after : Pool η}
    (hnone : ∀ q, pool.isUsable policy bindable q = false)
    (hbusy : e.busy = (pool.freePorts policy).card) (hrestored : pool.Restored after) :
    TakesFirst policy bindable pool start (.error e) after where
  granted_iff x := by
    simp only [reduceCtorEq, false_iff, not_exists, not_and]
    exact fun p hfirst => absurd hfirst (not_first_usable hnone)
  adds _ _ _ hx := by cases hx
  refused_iff x := by
    rw [Except.error.injEq, and_iff_right hnone, ← hbusy]
    exact ⟨fun heq => heq ▸ rfl, fun heq => congrArg Exhausted.mk heq.symm⟩
  refusal x hx := by
    obtain rfl := Except.error.inj hx
    rw [← hbusy]
    rfl
  restored _ _ := hrestored

theorem reserveAny_takesFirst (hs : course.pool.Sound policy) :
    TakesFirst policy bindable course.pool (scanStart course.asked.scans)
      (course.reserveAny policy (.steady scanStart bindable)).1
      (course.reserveAny policy (.steady scanStart bindable)).2.pool := by
  have hends := @reserveAny_ends η policy scanStart bindable course hs
  rcases hany : course.reserveAny policy (.steady scanStart bindable) with ⟨result, after⟩
  rw [hany] at hends
  cases hends with
  | found hfirst hid hlease => exact takesFirst_granted hfirst hid (reserveAny_adds hs hany hlease)
  | exhausted hnone hbusy => exact takesFirst_refused hnone hbusy (reserveAny_restores hs hany)

end PortLease.Pool
