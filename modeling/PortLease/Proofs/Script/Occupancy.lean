import PortLease.Proofs.Script.Deed

namespace PortLease.Script

open Pool (Grants lessHeld finished)

variable {setting : Setting} {m m' : Machine} {id x : LeaseId}

theorem Frame.refs_of_isLast {f : Frame} (hf : f.isLast) : f.refs = [] := by
  cases f <;> first | rfl | cases hf

theorem refs_settled (f : Frame) (rest : List Frame) :
    (settled f rest).flatMap Frame.refs = rest.flatMap Frame.refs := by
  unfold settled
  split
  · split <;> simp [Frame.refs]
  · rfl

namespace Machine

theorem references_cons {f : Frame} {rest : List Frame} (hs : m.stack = f :: rest) :
    m.references x =
      (slotsOf m.slots x).card + (f.refs.count x + (rest.flatMap Frame.refs).count x) := by
  simp [references, hs]

theorem Sound.update (h : m.Sound setting.policy) {l : Lease Hook} (hl : m.pool.lease? id = some l)
    {f : Lease Hook → Lease Hook} (hpool : m'.pool = m.pool.update id f)
    (hport : ∀ l, (f l).port = l.port) (hstate : ∀ l, (f l).state = l.state)
    (hheld : l.state = .held → 0 < (f l).holders)
    (hcount : ∀ x, (if x = id then (f l).holders else m.references x) = m'.references x) :
    m'.Sound setting.policy where
  pool := by
    rw [hpool]
    refine h.pool.update hport hstate fun k hk hk' => ?_
    rw [hl] at hk
    obtain rfl := Option.some.inj hk
    exact hheld hk'
  count x := by rw [hpool, holdersOf_update hl, h.count x, hcount x]

theorem Sound.holders (h : m.Sound setting.policy) {l : Lease Hook} (hl : m.pool.lease? id = some l) :
    l.holders = m.references id := by
  simpa [holdersOf, hl] using h.count id

theorem Sound.retain (h : m.Sound setting.policy) {l : Lease Hook}
    (hl : m.pool.lease? id = some l) (hpool : m'.pool = m.pool.retain id)
    (hcount : ∀ x, m.references x + [id].count x = m'.references x) : m'.Sound setting.policy := by
  rw [Pool.retain_eq] at hpool
  refine h.update hl hpool (fun _ => rfl) (fun _ => rfl) (fun _ => Nat.succ_pos _) fun x => ?_
  rw [← hcount x, List.count_singleton]
  split
  · rename_i hx
    simp [hx, h.holders hl]
  · rename_i hx
    simp [Ne.symm hx]

theorem Sound.endLease (h : m.Sound setting.policy) {l : Lease Hook} {occasion : Occasion}
    {become : Lease Hook → Lease Hook} {gone : List LeaseId} (hl : m.pool.lease? id = some l)
    (hheld : l.state = .held) (hend : Ending id occasion become gone)
    (hpool : m'.pool = (m.pool.update id become).release id l.port)
    (hcount : ∀ x, m'.references x + gone.count x = m.references x) : m'.Sound setting.policy := by
  constructor
  · rw [hpool]
    refine h.pool.endLease hl hheld ?_
    cases hend <;> simp [finished]
  · intro x
    have hx := hcount x
    rw [hpool, holdersOf_release, holdersOf_update hl, h.count x]
    split
    · rename_i heq
      subst heq
      have hholders := h.holders hl
      cases hend with
      | close verify => simpa [finished, hholders] using hx.symm
      | reclaim =>
        simp only [List.count_singleton_self] at hx
        simp only [finished, lessHeld, hholders]
        omega
    · rename_i hne
      have hzero : gone.count x = 0 := by
        cases hend with
        | close verify => rfl
        | reclaim => exact List.count_singleton.trans (by simp [Ne.symm hne])
      omega

theorem Sound.lessen (h : m.Sound setting.policy) {l : Lease Hook} (hl : m.pool.lease? id = some l)
    (hmore : l.state = .held → 1 < l.holders) (hpool : m'.pool = m.pool.update id lessHeld)
    (hcount : ∀ x, m'.references x + [id].count x = m.references x) : m'.Sound setting.policy := by
  refine h.update hl hpool (fun _ => rfl) (fun _ => rfl) ?_ fun x => ?_
  · intro hheld
    have := hmore hheld
    simp only [lessHeld]
    omega
  · have hx := hcount x
    rw [List.count_singleton] at hx
    split
    · rename_i heq
      subst heq
      simp only [BEq.rfl, if_true] at hx
      simp only [lessHeld, h.holders hl]
      omega
    · rename_i hne
      simp only [beq_iff_eq, Ne.symm hne, if_false] at hx
      omega

theorem Sound.samePool (h : m.Sound setting.policy) (hpool : m'.pool = m.pool)
    (hcount : ∀ x, m'.references x = m.references x) : m'.Sound setting.policy where
  pool := hpool ▸ h.pool
  count x := by rw [hpool, h.count x, hcount x]

theorem Sound.deed (h : m.Sound setting.policy) (hd : Deed setting m m') :
    m'.Sound setting.policy := by
  cases hd with
  | idle => exact h
  | pass events hs _ _ hrefs =>
    refine h.samePool rfl fun x => ?_
    rw [references_cons hs, references_cons rfl, hrefs]
  | grant events hs _ _ hrefs hg hids =>
    refine ⟨hg.sound, fun x => ?_⟩
    rw [holdersOf_grants hg, h.count x, references_cons hs, references_cons rfl, List.flatMap_cons,
      List.count_append, hrefs, ← hids.count_eq x]
    simp only [Frame.refs]
    omega
  | exhaust events hs _ _ hrefs hg =>
    refine ⟨hg.sound, fun x => ?_⟩
    rw [holdersOf_grants hg, h.count x, references_cons hs, references_cons rfl, hrefs]
    rfl
  | share events hs _ _ hrefs hl =>
    refine h.retain hl rfl fun x => ?_
    rw [references_cons hs, references_cons rfl, List.flatMap_cons, List.count_append, hrefs]
    simp only [Frame.refs, List.map_cons, List.map_nil]
    omega
  | lessen hs _ _ _ hp hl hmore =>
    refine h.lessen hl hmore rfl fun x => ?_
    have hx := hp x
    rw [references_cons hs, references_cons rfl]
    dsimp only
    omega
  | ended hs _ _ _ hp hl hheld hend =>
    refine h.endLease hl hheld hend rfl fun x => ?_
    have hx := hp x
    rw [references_cons hs, references_cons rfl, List.flatMap_cons, List.count_append]
    simp only [Frame.refs_hooks, List.count_nil]
    omega
  | register hs _ hl =>
    refine h.update hl rfl (fun _ => rfl) (fun _ => rfl) (h.pool.holders_pos _ _ hl) fun x => ?_
    split
    · rename_i heq
      subst heq
      rw [h.holders hl, references_cons hs, references_cons rfl]
      rfl
    · rw [references_cons hs, references_cons rfl]
      rfl
  | stored hs _ _ _ hp =>
    refine h.samePool rfl fun x => ?_
    have hx := hp x
    simp only [List.count_nil] at hx
    rw [references_cons hs, references_cons rfl]
    dsimp only
    omega
  | late hs | handedOver hs | bodyEnded hs | hookEnded hs | queried hs =>
    refine h.samePool rfl fun x => ?_
    rw [references_cons hs]
    simp [references, Frame.refs]
  | @hookStarted _ port _ _ _ _ _ _ hs =>
    cases hc : m.pool.current? port with
    | none =>
      refine h.samePool rfl fun x => ?_
      rw [references_cons hs, references_cons rfl]
      rfl
    | some id =>
      obtain ⟨-, hany⟩ := Option.filter_eq_some_iff.mp hc
      cases hl : m.pool.lease? id with
      | none => simp [hl] at hany
      | some l =>
        refine h.retain hl rfl fun x => ?_
        rw [references_cons hs, references_cons rfl, List.flatMap_cons, List.count_append]
        simp only [Frame.refs, Option.toList_some, List.count_nil]
        omega
  | settle events hs hf =>
    refine h.samePool rfl fun x => ?_
    rw [references_cons hs, Frame.refs_of_isLast hf]
    simp [references, refs_settled]

theorem Sound.redirect (h : m.Sound setting.policy) (todo : List Action) :
    (m.redirect todo).Sound setting.policy := by
  unfold Machine.redirect
  split
  · rename_i hs
    exact h.samePool rfl fun x => by simp [references, hs, start, push, Frame.refs]
  · rename_i hs
    exact h.samePool rfl fun x => by simp [references, hs, Frame.refs]
  · rename_i hs
    exact h.samePool rfl fun x => by simp [references, hs, Frame.refs]
  · exact h

end Machine

theorem Reachable.sound (h : Reachable setting m) : m.Sound setting.policy := by
  refine h.invariant Machine.sound_fresh ?_
  intro m m' hm hmove
  cases hmove with
  | step => exact hm.deed (Machine.step_deed hm)
  | redirect todo => exact hm.redirect todo

/-- A lease that has not ended and that a slot or a frame refers to. -/
def Machine.Live (m : Machine) (id : LeaseId) (port : Port) : Prop :=
  ∃ l, m.pool.lease? id = some l ∧ l.state = .held ∧ l.port = port ∧ 0 < m.references id

structure Machine.Agrees (policy : Policy) (m : Machine) : Prop where
  taken_iff : ∀ p, m.pool.taken.contains p = true ↔ ∃ id, m.pool.registry[p]? = some id
  registered_iff : ∀ p, (∃ id, m.pool.registry[p]? = some id) ↔ ∃! id, m.Live id p
  registry_iff : ∀ p id, m.pool.registry[p]? = some id ↔ m.Live id p
  ports_iff : ∀ p, p ∈ m.pool.takenPorts ↔ ∃ id, m.Live id p
  ascending : m.pool.takenPorts.Pairwise (· < ·)
  count : m.pool.takenCount = m.pool.takenPorts.length
  leasable : ∀ p ∈ m.pool.takenPorts, 1024 ≤ p.val ∧ policy.excluded.contains p = false
  found_iff : ∀ (number : Int) id, m.pool.find? number = some id ↔
    ∃ p : Port, number = p.val ∧ m.Live id p

theorem Machine.Sound.holds_iff (h : m.Sound setting.policy) {p : Port} :
    m.pool.Holds id p ↔ m.Live id p := by
  constructor
  · rintro ⟨l, hl, hheld, hport⟩
    refine ⟨l, hl, hheld, hport, ?_⟩
    rw [← h.holders hl]
    exact h.pool.holders_pos id l hl hheld
  · rintro ⟨l, hl, hheld, hport, -⟩
    exact ⟨l, hl, hheld, hport⟩

theorem Machine.Sound.current?_iff (h : m.Sound setting.policy) {p : Port} :
    m.pool.current? p = some id ↔ m.Live id p := by
  rw [← h.holds_iff, ← h.pool.registry_iff]
  unfold Pool.current?
  rw [Option.filter_eq_some_iff]
  refine and_iff_left_iff_imp.mpr fun hreg => ?_
  obtain ⟨l, hl, hheld, -⟩ := (h.pool.registry_iff p id).mp hreg
  simp [hl, h.pool.holders_pos id l hl hheld]

theorem Machine.Sound.freed (h : m.Sound setting.policy) {l : Lease Hook}
    (hl : m.pool.lease? id = some l) (hover : l.state ≠ .held) :
    (∀ p : Port, m.pool.registry[p]? ≠ some id) ∧
      ∀ p, m.pool.taken.contains p = true ↔ ∃ other, other ≠ id ∧ m.Live other p := by
  have hdead (p : Port) : ¬ m.Live id p := by
    rintro ⟨l', hl', hheld, -⟩
    rw [hl] at hl'
    exact hover (Option.some.inj hl' ▸ hheld)
  constructor
  · intro p hreg
    exact hdead p (h.holds_iff.mp ((h.pool.registry_iff p _).mp hreg))
  · intro p
    rw [h.pool.taken_iff]
    constructor
    · rintro ⟨other, hother⟩
      have hlive := h.holds_iff.mp ((h.pool.registry_iff _ other).mp hother)
      refine ⟨other, ?_, hlive⟩
      rintro rfl
      exact hdead _ hlive
    · rintro ⟨other, -, hlive⟩
      exact ⟨other, (h.pool.registry_iff _ other).mpr (h.holds_iff.mpr hlive)⟩

theorem reachable_agrees (h : Reachable setting m) : m.Agrees setting.policy := by
  have hs := h.sound
  have hreg (p : Port) (id : LeaseId) : m.pool.registry[p]? = some id ↔ m.Live id p :=
    (hs.pool.registry_iff p id).trans hs.holds_iff
  have htaken (p : Port) : p ∈ m.pool.takenPorts ↔ ∃ id, m.Live id p := by
    rw [Pool.takenPorts, PortSet.mem_toList, hs.pool.taken_iff]
    simp only [hreg]
  constructor
  · exact hs.pool.taken_iff
  · intro p
    constructor
    · rintro ⟨id, hid⟩
      refine ⟨id, (hreg p id).mp hid, fun other hother => ?_⟩
      have hother := (hreg p other).mpr hother
      rw [hid] at hother
      exact (Option.some.inj hother).symm
    · rintro ⟨id, hid, -⟩
      exact ⟨id, (hreg p id).mpr hid⟩
  · exact hreg
  · exact htaken
  · exact PortSet.sorted_toList _
  · exact hs.pool.counted.length_toList.symm
  · intro p hp
    have hcandidate := hs.pool.candidate p (PortSet.mem_toList.mp hp)
    simp only [Policy.isCandidate, Bool.and_eq_true, decide_eq_true_eq, Bool.not_eq_true'] at hcandidate
    exact ⟨hcandidate.1, hcandidate.2⟩
  · intro number id
    simp only [Pool.find?_eq_some_iff, hs.current?_iff]

def Machine.reopened : Machine :=
  (({} : Machine).start [.reserve 5000 (some "a"),
    .onClose "a" "again" [.reserve 5000 (some "b")], .close "a" false]).run Setting.lone 9

theorem reachable_agrees_reopened :
    Reachable Setting.lone .reopened ∧ Machine.reopened.Agrees Setting.lone.policy ∧
      Machine.reopened.stack.length = 3 ∧
      Machine.reopened.pool.registry[(5000 : Port)]? = some 2 := by
  have h : Reachable Setting.lone .reopened := (Reachable.fresh.start rfl _).run 9
  exact ⟨h, reachable_agrees h, by decide +kernel, by decide +kernel⟩

end PortLease.Script
