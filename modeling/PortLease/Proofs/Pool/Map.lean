import PortLease.Pool.Reserve

namespace PortLease

variable {η θ : Type}

def Lease.map (f : η → θ) (l : Lease η) : Lease θ := ⟨l.port, l.state, l.hooks.map f, l.holders⟩

@[simp] theorem Lease.isHeld_map (f : η → θ) (l : Lease η) : (l.map f).isHeld = l.isHeld := rfl

namespace Pool

def map (f : η → θ) (pool : Pool η) : Pool θ :=
  ⟨pool.taken, pool.registry, pool.leases.map (Lease.map f)⟩

theorem map_map {f : η → η} (hf : ∀ hook, f (f hook) = f hook) (pool : Pool η) :
    (pool.map f).map f = pool.map f := by
  have hlease (l : Lease η) : (l.map f).map f = l.map f := by simp [Lease.map, hf]
  simp [map, hlease]

variable {policy : Policy} {world : World}

@[simp] theorem taken_map (f : η → θ) (pool : Pool η) : (pool.map f).taken = pool.taken := rfl

@[simp] theorem registry_map (f : η → θ) (pool : Pool η) : (pool.map f).registry = pool.registry := rfl

@[simp] theorem lease?_map (f : η → θ) (pool : Pool η) (id : LeaseId) :
    (pool.map f).lease? id = (pool.lease? id).map (Lease.map f) := by
  unfold lease?
  split
  · rfl
  · simp [map]

theorem setLease_map (f : η → θ) (pool : Pool η) (id : LeaseId) (l : Lease η) :
    (pool.map f).setLease id (l.map f) = (pool.setLease id l).map f := by
  simp [setLease, map, Array.map_setIfInBounds]

@[simp] theorem lend_map (f : η → θ) (pool : Pool η) (port : Port) :
    (pool.map f).lend port = ((pool.lend port).1, (pool.lend port).2.map f) := by
  simp [lend, map, Lease.map]

@[simp] theorem release_map (f : η → θ) (pool : Pool η) (id : LeaseId) (port : Port) :
    (pool.map f).release id port = (pool.release id port).map f := by
  unfold release
  rw [registry_map]
  split <;> rfl

@[simp] theorem current?_map (f : η → θ) (pool : Pool η) (port : Port) :
    (pool.map f).current? port = pool.current? port := by
  unfold current?
  rw [registry_map]
  congr 1
  funext id
  rw [lease?_map]
  cases pool.lease? id <;> rfl

@[simp] theorem find?_map (f : η → θ) (pool : Pool η) (number : Int) :
    (pool.map f).find? number = pool.find? number :=
  congrArg (Port.ofInt? number).bind (funext fun port => current?_map f pool port)

@[simp] theorem retain_map (f : η → θ) (pool : Pool η) (id : LeaseId) :
    (pool.map f).retain id = (pool.retain id).map f := by
  simp only [retain, lease?_map]
  cases pool.lease? id with
  | none => rfl
  | some l => exact setLease_map f pool id { l with holders := l.holders + 1 }

@[simp] theorem finish_map (f : η → θ) (pool : Pool η) (id : LeaseId) (state : LeaseState) :
    (pool.map f).finish id state =
      ((pool.finish id state).1.map (Lease.map f), (pool.finish id state).2.map f) := by
  simp only [finish, lease?_map]
  cases pool.lease? id with
  | none => rfl
  | some l =>
    have hset : (pool.map f).setLease id { l.map f with state, hooks := [] } =
        (pool.setLease id { l with state, hooks := [] }).map f :=
      setLease_map f pool id { l with state, hooks := [] }
    by_cases hheld : l.isHeld
    · simp [hheld, hset]
    · simp [hheld]

@[simp] theorem letGo_map (f : η → θ) (pool : Pool η) (id : LeaseId) :
    (pool.map f).letGo id = ((pool.letGo id).1.map (Lease.map f), (pool.letGo id).2.map f) := by
  simp only [letGo, lease?_map]
  cases pool.lease? id with
  | none => rfl
  | some l =>
    have hset := setLease_map f pool id { l with holders := l.holders - 1 }
    simp only [Lease.map] at hset
    simp only [Option.map_some, Lease.map, hset]
    split
    · exact finish_map f _ id .reclaimed
    · rfl

@[simp] theorem addHook_map (f : η → θ) (pool : Pool η) (id : LeaseId) (hook : η) :
    (pool.map f).addHook id (f hook) =
      ((pool.addHook id hook).1, (pool.addHook id hook).2.map f) := by
  simp only [addHook, lease?_map]
  cases pool.lease? id with
  | none => rfl
  | some l =>
    have hset : (pool.map f).setLease id { l.map f with hooks := f hook :: (l.map f).hooks } =
        (pool.setLease id { l with hooks := hook :: l.hooks }).map f :=
      setLease_map f pool id { l with hooks := hook :: l.hooks }
    by_cases hheld : l.isHeld
    · simp [hheld, hset]
    · simp [hheld]

@[simp] theorem close_map (f : η → θ) (pool : Pool η) (id : LeaseId) :
    (pool.map f).close id = ((pool.close id).1.map (Lease.map f), (pool.close id).2.map f) := by
  simp only [close, finish_map]
  rcases pool.finish id .closed with ⟨_ | l, finished⟩
  · rfl
  · simp [Lease.map]

@[simp] theorem reserve_map (f : η → θ) (pool : Pool η) (number : Int) :
    (pool.map f).reserve policy number =
      (pool.reserve policy number).map fun r => (r.1, r.2.1.map f, r.2.2) := by
  simp only [reserve, taken_map, lend_map]
  cases policy.check number with
  | error refusal => rfl
  | ok port =>
    simp only
    split <;> rfl

namespace Course

def map (f : η → θ) (course : Course η) : Course θ := ⟨course.pool.map f, course.asked, course.log⟩

theorem discard_map (f : η → θ) (course : Course η) (id : LeaseId) :
    (course.map f).discard id = (course.discard id).map f := by
  obtain ⟨pool, asked, log⟩ := course
  simp only [discard, map, close_map]
  rcases pool.close id with ⟨_ | l, closed⟩ <;> simp [Lease.map]

theorem scan_map (f : η → θ) (tries : Nat) (busy : PortSet) (start : Port) (course : Course η) :
    (course.map f).scan policy world tries busy start =
      ((course.scan policy world tries busy start).1,
        (course.scan policy world tries busy start).2.map f) := by
  induction tries generalizing busy start course with
  | zero => rfl
  | succ tries ih =>
    obtain ⟨pool, asked, log⟩ := course
    simp only [scan, map, taken_map, lend_map]
    split
    · rfl
    · rename_i port _
      obtain ⟨id, lent⟩ := pool.lend port
      simp only
      split
      · split
        · rfl
        · have hdiscard := discard_map f
            ⟨lent, { asked with probes := asked.probes + 1 }, .boundElsewhere port :: log⟩ id
          rw [map] at hdiscard
          rw [hdiscard]
          exact ih _ _ _
      · rfl

theorem reserveAny_map (f : η → θ) (course : Course η) :
    (course.map f).reserveAny policy world =
      ((course.reserveAny policy world).1, (course.reserveAny policy world).2.map f) := by
  exact scan_map f _ _ _ { course with asked.scans := course.asked.scans + 1 }

theorem foldl_discard_map (f : η → θ) (ids : List LeaseId) (course : Course η) :
    ids.foldl discard (course.map f) = (ids.foldl discard course).map f := by
  induction ids generalizing course with
  | nil => rfl
  | cons id ids ih => rw [List.foldl_cons, discard_map, ih, List.foldl_cons]

theorem reserveMore_map (f : η → θ) (left : Nat) (claimed : List LeaseId) (course : Course η) :
    (course.map f).reserveMore policy world left claimed =
      ((course.reserveMore policy world left claimed).1,
        (course.reserveMore policy world left claimed).2.map f) := by
  induction left generalizing claimed course with
  | zero => rfl
  | succ left ih =>
    simp only [reserveMore, reserveAny_map]
    rcases course.reserveAny policy world with ⟨e | id, after⟩
    · exact congrArg _ (foldl_discard_map f claimed.reverse (after.note _))
    · exact ih (id :: claimed) after

end Course

end Pool

end PortLease
