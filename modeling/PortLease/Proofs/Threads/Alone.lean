import PortLease.Proofs.Threads.Own

namespace PortLease.Threads

open Script (Hook)
open Pool (Course World Grants finished lessHeld)

variable {policy : Policy} {world : World} {pool pool' pool'' : Pool Hook} {id : LeaseId} {port : Port}
  {call call' call'' : Call} {given given' : List LeaseId}

inductive Runs (policy : Policy) : Pool Hook → Call → Pool Hook → Call → List LeaseId → Prop
  | refl (pool : Pool Hook) (call : Call) : Runs policy pool call pool call []
  | step {pool pool' : Pool Hook} {call call' : Call} {given : List LeaseId} {o : Outcome}
      (answers : Answers) (ho : call.step policy answers pool = o)
      (h : Runs policy o.pool o.call pool' call' given) :
    Runs policy pool call pool' call' (o.given ++ given)

theorem Runs.trans (h : Runs policy pool call pool' call' given)
    (h' : Runs policy pool' call' pool'' call'' given') :
    Runs policy pool call pool'' call'' (given ++ given') := by
  induction h with
  | refl => exact h'
  | step answers ho _ ih =>
    rw [List.append_assoc]
    exact .step answers ho (ih h')

theorem Runs.once {o : Outcome} (answers : Answers) (ho : call.step policy answers pool = o) :
    Runs policy pool call o.pool o.call o.given := by
  have h := Runs.step answers ho (.refl o.pool o.call)
  rwa [List.append_nil] at h

theorem Runs.first (policy : Policy) (pool : Pool Hook) (s : Section) (todo : List Section)
    (task : Task) :
    Runs policy pool (.run (s :: todo) task) (s.pool pool) (.run (s.next pool ++ todo) task) [] :=
  .once ⟨0, true⟩ rfl

theorem close_alone (policy : Policy) (pool : Pool Hook) (id : LeaseId) (todo : List Section)
    (task : Task) : Runs policy pool (.run (.close id :: todo) task) (pool.close id).2
      (.run ((afterEnd id (pool.close id).1).tail ++ todo) task) [] := by
  have hclose := Runs.first policy pool (.close id) todo task
  cases hfinish : pool.finish id .closed with
  | mk ended pool' =>
    cases ended with
    | none =>
      simp only [Section.pool, Section.next, hfinish, Pool.close] at hclose ⊢
      exact hclose
    | some l =>
      simp only [Section.pool, Section.next, hfinish, Pool.close] at hclose ⊢
      exact hclose.trans (.first _ _ (.release id l.port) _ task)

theorem drop_alone (m : Script.Machine) (id : LeaseId) :
    Runs policy m.pool (.drop id) (m.letGo id).pool
      (.run (afterEnd id (m.pool.letGo id).1).tail .done) [] := by
  have hdrop := Runs.first policy m.pool (.drop id) [] .done
  cases hgo : m.pool.letGo id with
  | mk ended pool' =>
    cases ended with
    | none =>
      simp only [Section.pool, Section.next, hgo, Script.Machine.letGo] at hdrop ⊢
      exact hdrop
    | some l =>
      simp only [Section.pool, Section.next, hgo, Script.Machine.letGo, List.append_nil] at hdrop ⊢
      exact hdrop.trans (.first _ _ (.release id l.port) _ .done)

theorem Runs.giveUp (h : Fresh pool id) (task : Task) :
    Runs policy pool (.discard id task) (pool.giveUp id) (.run [] task) [] := by
  obtain ⟨l, hl, hheld, hhooks⟩ := h.lease
  have hclose := close_alone policy pool id [.drop id] task
  have hnone : (afterEnd id (pool.close id).1).tail = [] := by
    simp [Pool.close_held hl hheld, afterEnd, hhooks]
  have hclosed : (pool.close id).2.lease? id = some (finished .closed l) := by
    simp [Pool.close_held hl hheld, Pool.lease?_update, hl]
  have hgo := Pool.letGo_more hclosed (by simp [finished])
  have hdrop := Runs.first policy (pool.close id).2 (.drop id) [] task
  rw [hnone] at hclose
  simp only [Section.next, hgo, afterEnd] at hdrop
  exact hclose.trans hdrop

theorem reserve_alone {number : Int} {lease : Option LeaseId} {record : LogRecord}
    (h : pool.reserve policy number = .ok (lease, pool', record)) :
    Runs policy pool (.reserve number) pool' .idle lease.toList := by
  unfold Pool.reserve at h
  cases hcheck : policy.check number with
  | error refusal =>
    rw [hcheck] at h
    cases h
  | ok port =>
    simp only [hcheck] at h
    split at h
    · rename_i htaken
      cases h
      have hstep : Call.step policy ⟨0, true⟩ pool (.reserve number) = ⟨pool, .idle, [], none⟩ := by
        simp [Call.step, hcheck, Pool.claim?, htaken]
      exact .once _ hstep
    · rename_i hfree
      cases h
      have hstep : Call.step policy ⟨0, true⟩ pool (.reserve number) =
          ⟨(pool.lend port).2, .idle, [(pool.lend port).1],
            some (.claimed (pool.lend port).1 port)⟩ := by
        simp [Call.step, hcheck, Pool.claim?, hfree]
      exact .once _ hstep

theorem refused_alone {number : Int} {refusal : Refusal}
    (h : pool.reserve policy number = .error refusal) :
    Runs policy pool (.reserve number) pool .idle [] := by
  unfold Pool.reserve at h
  cases hcheck : policy.check number with
  | error refusal =>
    have hstep : Call.step policy ⟨0, true⟩ pool (.reserve number) = ⟨pool, .idle, [], none⟩ := by
      simp [Call.step, hcheck]
    exact .once _ hstep
  | ok port =>
    simp only [hcheck] at h
    split at h <;> cases h

def scanned (batch : Option Batch) (next : Port) (pool : Pool Hook) :
    Except Pool.Exhausted LeaseId → Call × List LeaseId
  | .ok id => ((gotten pool ⟨next, true⟩ id none batch).call,
      (gotten pool ⟨next, true⟩ id none batch).given)
  | .error _ =>
    match batch with
    | none => (.idle, [])
    | some batch => (.run [] (.rollback batch.claimed.reverse), [])

theorem size_le {s : PortSet} (h : s.Counted) : s.size ≤ Port.count := by
  rw [h]
  exact (Finset.card_le_univ _).trans_eq (Fintype.card_fin _)

theorem scanned_note (note : Option Note) (batch : Option Batch) (next : Port) :
    scanned batch next pool (.ok id) = ((gotten pool ⟨next, true⟩ id note batch).call,
      (gotten pool ⟨next, true⟩ id note batch).given) := by
  obtain - | ⟨_ | _, _⟩ := batch <;> rfl

section Search

variable {batch : Option Batch} {next start : Port} {busy : PortSet}

theorem Runs.exhausts (e : Pool.Exhausted)
    (hfind : pool.taken.find? start (fun p => policy.isCandidate p && !busy.contains p) = none) :
    Runs policy pool (.run [] (.search batch busy start)) pool
      (scanned batch next pool (.error e)).1 (scanned batch next pool (.error e)).2 := by
  cases batch with
  | none =>
    have hstep : Call.step policy ⟨0, true⟩ pool (.run [] (.search none busy start)) =
        ⟨pool, .idle, [], some .failed⟩ := by
      simp [Call.step, Task.step, hfind]
    exact .once _ hstep
  | some batch =>
    have hstep : Call.step policy ⟨0, true⟩ pool (.run [] (.search (some batch) busy start)) =
        ⟨pool, .run [] (.rollback batch.claimed.reverse), [], none⟩ := by
      simp [Call.step, Task.step, hfind]
    exact .once _ hstep

theorem Runs.claims (hprobe : policy.probeBind = true)
    (hfind : pool.taken.find? start (fun p => policy.isCandidate p && !busy.contains p) = some port) :
    Runs policy pool (.run [] (.search batch busy start)) (pool.lend port).2
      (.probe batch busy (pool.lend port).1 port) [] := by
  have hstep : Call.step policy ⟨0, true⟩ pool (.run [] (.search batch busy start)) =
      ⟨(pool.lend port).2, .probe batch busy (pool.lend port).1 port, [],
        some (.claimed (pool.lend port).1 port)⟩ := by
    simp [Call.step, Task.step, hfind, hprobe]
  exact .once _ hstep

theorem Runs.gets (hprobe : policy.probeBind = false)
    (hfind : pool.taken.find? start (fun p => policy.isCandidate p && !busy.contains p) = some port) :
    Runs policy pool (.run [] (.search batch busy start)) (pool.lend port).2
      (scanned batch next (pool.lend port).2 (.ok (pool.lend port).1)).1
      (scanned batch next (pool.lend port).2 (.ok (pool.lend port).1)).2 := by
  have hstep : Call.step policy ⟨next, true⟩ pool (.run [] (.search batch busy start)) =
      gotten (pool.lend port).2 ⟨next, true⟩ (pool.lend port).1
        (some (.claimed (pool.lend port).1 port)) batch := by
    simp [Call.step, Task.step, hfind, hprobe]
  have hruns := Runs.once ⟨next, true⟩ hstep
  rw [pool_gotten] at hruns
  rw [scanned_note (some (.claimed (pool.lend port).1 port))]
  exact hruns

theorem Runs.binds : Runs policy pool (.probe batch busy id port) pool
    (scanned batch next pool (.ok id)).1 (scanned batch next pool (.ok id)).2 := by
  have hstep : Call.step policy ⟨next, true⟩ pool (.probe batch busy id port) =
      gotten pool ⟨next, true⟩ id none batch := by
    simp [Call.step]
  have hruns := Runs.once ⟨next, true⟩ hstep
  rw [pool_gotten] at hruns
  exact hruns

theorem Runs.skips (h : Fresh pool id) : Runs policy pool (.probe batch busy id port)
    (pool.giveUp id) (.run [] (.search batch (busy.insert port) (port + 1))) [] := by
  have hstep : Call.step policy ⟨0, false⟩ pool (.probe batch busy id port) =
      ⟨pool, .discard id (.search batch (busy.insert port) (port + 1)), [], none⟩ := by
    simp [Call.step]
  exact .step ⟨0, false⟩ hstep (.giveUp h _)

theorem scan_alone (tries : Nat) (course : Course Hook) (hbusy : busy.Counted)
    (htries : Port.count < busy.size + tries) {r : Except Pool.Exhausted LeaseId × Course Hook}
    (hr : course.scan policy world tries busy start = r) :
    Runs policy course.pool (.run [] (.search batch busy start)) r.2.pool
      (scanned batch next r.2.pool r.1).1 (scanned batch next r.2.pool r.1).2 := by
  induction tries generalizing busy start course with
  | zero => exact absurd (size_le hbusy) (Nat.not_le.mpr htries)
  | succ tries ih =>
    obtain ⟨pool, asked, log⟩ := course
    rw [Course.scan] at hr
    cases hfind : pool.taken.find? start fun p => policy.isCandidate p && !busy.contains p with
    | none =>
      simp only [hfind] at hr
      subst hr
      exact .exhausts _ hfind
    | some port =>
      cases hprobe : policy.probeBind with
      | false =>
        simp only [hfind, hprobe, Bool.false_eq_true, if_false] at hr
        subst hr
        exact .gets hprobe hfind
      | true =>
        apply (Runs.claims hprobe hfind).trans
        simp only [hfind, hprobe, if_true] at hr
        cases hbind : world.bindable asked.probes port with
        | true =>
          simp only [hbind, if_true] at hr
          subst hr
          exact .binds
        | false =>
          simp only [hbind, Bool.false_eq_true, if_false] at hr
          have hfresh : busy.contains port = false := by
            obtain ⟨-, heligible⟩ := PortSet.find?_some hfind
            simp only [Bool.and_eq_true, Bool.not_eq_true'] at heligible
            exact heligible.2
          have hmore : Port.count < (busy.insert port).size + tries := by
            rw [PortSet.size_insert hfresh]
            omega
          exact (Runs.skips fresh_lend).trans (ih _ (hbusy.insert port) hmore hr)

end Search

theorem search_alone (batch : Option Batch) (next : Port) (course : Course Hook)
    {r : Except Pool.Exhausted LeaseId × Course Hook}
    (hr : course.reserveAny policy world = r) :
    Runs policy course.pool
      (.run [] (.search batch .empty (world.scanStart course.asked.scans))) r.2.pool
      (scanned batch next r.2.pool r.1).1 (scanned batch next r.2.pool r.1).2 := by
  have htries : Port.count < PortSet.empty.size + (Port.count + 1) :=
    Nat.lt_of_lt_of_le (Nat.lt_succ_self _) (Nat.le_add_left _ _)
  exact scan_alone (Port.count + 1) { course with asked.scans := course.asked.scans + 1 }
    PortSet.counted_empty htries hr

theorem reserveAny_alone (course : Course Hook) :
    Runs policy course.pool (.reserveAny (world.scanStart course.asked.scans))
      (course.reserveAny policy world).2.pool .idle
      (course.reserveAny policy world).1.toOption.toList := by
  cases hany : course.reserveAny policy world with
  | mk got course' =>
    have hscan := search_alone none Port.lowest course hany
    cases got with
    | ok id => exact hscan
    | error e => exact hscan

theorem rollback_alone {start : Pool Hook} {ids : List LeaseId} {course : Course Hook}
    (h : Grants policy start course.pool ids) :
    Runs policy course.pool (.run [] (.rollback ids)) (ids.foldl Course.discard course).pool .idle
      [] := by
  induction ids generalizing course with
  | nil => exact .once ⟨0, true⟩ (o := ⟨course.pool, .idle, [], some .failed⟩) rfl
  | cons id ids ih =>
    obtain ⟨-, port, hl⟩ := h.granted id List.mem_cons_self
    have hfresh : Fresh course.pool id := by
      simp [Fresh, Script.terms, Script.hooksOf, hl]
    have hgive := h.giveUp List.mem_cons_self
    rw [List.erase_cons_head] at hgive
    have hrest : Runs policy (course.discard id).pool (.run [] (.rollback ids)) _ .idle [] :=
      ih hgive
    exact Runs.step ⟨0, true⟩ rfl ((Runs.giveUp hfresh (.rollback ids)).trans hrest)

theorem reserveMore_alone (left : Nat) {start : Pool Hook} (claimed : List LeaseId)
    (course : Course Hook) (h : Grants policy start course.pool claimed)
    {r : Except Pool.Exhausted (List LeaseId) × Course Hook}
    (hr : course.reserveMore policy world (left + 1) claimed = r) :
    Runs policy course.pool
      (.run [] (.search (some ⟨left, claimed⟩) .empty (world.scanStart course.asked.scans)))
      r.2.pool .idle (r.1.toOption.getD []) := by
  cases hany : course.reserveAny policy world with
  | mk got course' =>
    have hscan := search_alone (some ⟨left, claimed⟩) (world.scanStart course'.asked.scans)
      course hany
    have hgrants : Grants policy start (course.reserveAny policy world).2.pool _ :=
      Pool.reserveAny_grants h
    simp only [Course.reserveMore, hany] at hr
    rw [hany] at hgrants
    cases got with
    | error e =>
      subst hr
      have hback : Runs policy (course'.note (.rollingBack claimed.length (e.toError policy))).pool
          (.run [] (.rollback claimed.reverse)) _ .idle [] :=
        rollback_alone (hgrants.perm (List.reverse_perm claimed).symm)
      exact hscan.trans hback
    | ok id =>
      cases left with
      | zero =>
        subst hr
        exact hscan
      | succ left => exact hscan.trans (reserveMore_alone left (id :: claimed) course' hgrants hr)

theorem reserveMany_alone {number : Int} {count : Nat} (hcount : Pool.checkCount number = .ok count)
    (course : Course Hook) (hsound : course.pool.Sound policy) :
    Runs policy course.pool (.reserveMany number (world.scanStart course.asked.scans))
      (course.reserveMore policy world count []).2.pool .idle
      ((course.reserveMore policy world count []).1.toOption.getD []) := by
  cases count with
  | zero =>
    unfold Pool.checkCount at hcount
    split at hcount
    · cases hcount
    · rename_i hrange
      have hzero : number.toNat = 0 := Except.ok.inj hcount
      omega
  | succ left =>
    rw [Call.reserveMany, hcount]
    exact reserveMore_alone left [] course (.refl hsound) rfl

end PortLease.Threads
