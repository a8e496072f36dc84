import PortLease.Proofs.Threads.Hooks.Once

/-!
Which lease a hook is handed. It is its own just when it is looked up before the release of the lease.
The hooks that a close runs come after the release. A late hook can come before it, between the two
sections of another thread's close.
-/

namespace PortLease.Threads.Hooks

open Script (Hook Failure Occasion)

variable {policy : Policy} {failure : Option Failure} {pool : Pool Hook} {n : Nat} {s : State n}
  {t : Fin n} {call : Call} {o : Outcome} {id : LeaseId} {port : Port} {round : Round}

/-- The lease is marked as over, and its port is not given back yet. -/
def State.Releasing (s : State n) (id : LeaseId) : Prop :=
  ∃ u round, s.calls u = .release round ∧ round.lease = id

theorem Round.ended_eq (round : Round) (h : round.ended ≠ []) : round.ended = [round.lease] := by
  obtain ⟨hended, -⟩ | ⟨hended, -⟩ := round.answer_eq
  · exact hended
  · exact absurd hended h

theorem Reachable.registry_iff (h : Reachable policy s) (hid : (id, port) ∈ s.all Note.claimed?) :
    s.pool.registry[port]? = some id ↔ id ∉ s.all Note.released? := by
  obtain ⟨base, hr, hplain⟩ := h.plain
  rw [← hplain.claims] at hid
  rw [← hplain.pool, hr.ledger.registry, ← hplain.releases]
  exact and_iff_right hid

theorem Reachable.current?_iff (h : Reachable policy s) (hid : (id, port) ∈ s.all Note.claimed?) :
    s.pool.current? port = some id ↔ id ∉ s.all Note.released? := by
  rw [← h.registry_iff hid, Pool.current?, Option.filter_eq_some_iff]
  obtain ⟨base, hr, hplain⟩ := h.plain
  have hhand := hplain.inHand hr h.kept hid
  rw [← hplain.hands] at hhand
  have hholders := hr.held.inHand hhand
  rw [hplain.pool] at hholders
  obtain ⟨l, hl⟩ := exists_of_holders hholders
  rw [holdersOf_eq hl] at hholders
  apply and_iff_left
  rw [hl]
  exact decide_eq_true hholders

theorem Reachable.claimed (h : Reachable policy s) (hround : (s.calls t).round? = some round) :
    (round.lease, round.port) ∈ s.all Note.claimed? := by
  obtain ⟨base, -, hplain⟩ := h.plain
  exact hplain.places t _ (Call.mem_places hround)

theorem mem_all {β : Type} {f : Note → Option β} {x : β} : x ∈ s.all f ↔ ∃ u, x ∈ s.own u f := by
  simp only [State.all, State.own, List.mem_filterMap]
  constructor
  · rintro ⟨event, he, heq⟩
    exact ⟨event.1, event, he, (if_pos rfl).trans heq⟩
  · rintro ⟨u, event, he, heq⟩
    simp only [Option.ite_none_right_eq_some] at heq
    exact ⟨event, he, heq.2⟩

theorem not_mem_released : id ∉ s.all Note.released? ↔
    ∀ u port, (u, .released id port) ∉ s.trace := by
  rw [State.all, List.mem_filterMap]
  constructor
  · intro h u port he
    exact h ⟨_, he, rfl⟩
  · rintro h ⟨⟨u, note⟩, he, heq⟩
    cases note with
    | released x port =>
      cases heq
      exact h u port he
    | _ => cases heq

theorem Act.round_over (hact : Act policy failure s.pool call o) (hchange : Change s (s.after t o))
    (hold : ∀ r, call.round? = some r → Over s.pool r.lease ∧ r.occasion ≠ .reclaim)
    (hknown : ∀ x ∈ call.places, ∃ l, s.pool.lease? x.1 = some l)
    (hround : o.call.round? = some round) :
    Over (s.after t o).pool round.lease ∧ round.occasion ≠ .reclaim := by
  have hstays (r : Round) (hr : call.round? = some r) :
      Over (s.after t o).pool r.lease ∧ r.occasion ≠ .reclaim :=
    (hold r hr).imp_left fun hover => (hchange.over hover).1
  cases hact with
  | @ended id l verify hl hheld =>
    obtain rfl := Option.some.inj hround
    exact ⟨(over_ends hl id).mpr (.inl rfl), nofun⟩
  | @late id port hook hover =>
    obtain rfl := Option.some.inj hround
    obtain ⟨l, hl⟩ := hknown (id, port) (List.mem_singleton_self _)
    exact ⟨over_of hl (hover l hl), nofun⟩
  | ran round' hook current =>
    rw [Round.round?_back] at hround
    obtain rfl := Option.some.inj hround
    exact hstays round' rfl
  | released round' | @looked round' _ _ _ | @queried round' _ | ending round' other =>
    obtain rfl := Option.some.inj hround
    exact hstays round' rfl
  | _ => cases hround

theorem Reachable.round_over (h : Reachable policy s) (hround : (s.calls t).round? = some round) :
    Over s.pool round.lease ∧ round.occasion ≠ .reclaim := by
  apply h.calls (P := fun s call => ∀ round, call.round? = some round →
    Over s.pool round.lease ∧ round.occasion ≠ .reclaim) _ _ _ _ t round hround
  · exact nofun
  · intro s s' call hs hmove hold round hround
    exact (hold round hround).imp_left fun hover => ((hs.change hmove).over hover).1
  · intro s t call note hopens round hround
    cases hopens <;> cases hround
  · intro s t failure hs hold round hround
    apply Act.round_over (Call.act policy failure s.pool _) (hs.change (.step t failure))
      hold _ hround
    intro x hx
    obtain ⟨base, hr, hplain⟩ := hs.plain
    exact hs.inHand (hplain.inHand hr hs.kept (hplain.places t x hx))

theorem Reachable.releasing_iff (h : Reachable policy s) (hover : Over s.pool id) :
    s.Releasing id ↔ id ∉ s.all Note.released? := by
  constructor
  · rintro ⟨u, round, hcall, rfl⟩ hgone
    obtain ⟨v, hv⟩ := mem_all.mp hgone
    have hbalance := releases_account.balance h u round.lease
    rw [hcall, Call.releases, List.count_singleton_self] at hbalance
    have hended : round.lease ∈ s.own u Note.ended? := List.count_pos_iff.mp (by omega)
    obtain rfl := ((h.released_once hv).2 u).mp hended
    have hreleased := List.count_pos_iff.mpr hv
    have honce := h.ends.once u round.lease
    omega
  · intro hnot
    obtain ⟨t, ht⟩ := (h.ends.ended id).mp hover
    have hbalance := releases_account.balance h t id
    have hnone : (s.own t Note.released?).count id = 0 :=
      List.count_eq_zero_of_not_mem fun hmem => hnot (mem_all.mpr ⟨t, hmem⟩)
    have hended := List.count_pos_iff.mpr ht
    have hcarried : id ∈ (s.calls t).releases := List.count_pos_iff.mp (by omega)
    cases hcall : s.calls t with
    | release round =>
      rw [hcall] at hcarried
      exact ⟨t, round, hcall, (List.mem_singleton.mp hcarried).symm⟩
    | _ =>
      rw [hcall] at hcarried
      cases hcarried

theorem Reachable.own_released (h : Reachable policy s) (hround : (s.calls t).round? = some round)
    (hpast : ∀ r, s.calls t ≠ .release r) (hended : round.ended ≠ []) :
    round.lease ∈ s.all Note.released? := by
  have hperformed := ended_account.balance h t round.lease
  have hreleased := releases_account.balance h t round.lease
  have hmine : (s.calls t).ended.count round.lease = 1 := by
    rw [Call.ended, hround, Option.map_some, Option.getD_some, round.ended_eq hended,
      List.count_singleton_self]
  have hnone : (s.calls t).releases = [] := by
    cases hcall : s.calls t with
    | release r => exact absurd hcall (hpast r)
    | _ => rfl
  rw [hnone, List.count_nil] at hreleased
  exact mem_all.mpr ⟨t, List.count_pos_iff.mp (by omega)⟩

theorem Reachable.late_of_registered (h : Reachable policy s)
    (hround : (s.calls t).round? = some round) (hpast : ∀ r, s.calls t ≠ .release r)
    (hheld : round.lease ∉ s.all Note.released?) : round.occasion = .late := by
  have hnone : round.ended = [] := by
    by_contra hended
    exact hheld (h.own_released hround hpast hended)
  cases hoccasion : round.occasion with
  | late => rfl
  | close verify =>
    rw [Round.ended, hoccasion] at hnone
    cases hnone
  | reclaim => exact absurd hoccasion (h.round_over hround).2

theorem Act.looked_note {hook : Nat} {occasion : Occasion} {current : Option LeaseId}
    (hact : Act policy failure pool call o)
    (hnote : o.note = some (.looked id hook occasion current)) : ∃ round, call = .next round ∧
      id = round.lease ∧ occasion = round.occasion ∧ current = pool.current? round.port := by
  cases hact with
  | @looked round _ _ htodo =>
    cases hnote
    exact ⟨round, rfl, rfl, rfl, rfl⟩
  | @answered round _ | checked round =>
    obtain ⟨-, hanswer⟩ | ⟨-, records, hanswer⟩ := round.answer_eq <;> rw [hanswer] at hnote <;>
      cases hnote
  | _ => cases hnote

theorem Act.ran_note {hook : Nat} {current : Option LeaseId} {result : Option Failure}
    (hact : Act policy failure pool call o) (hnote : o.note = some (.ran id hook current result)) :
    ∃ round h, call = .running round h current ∧ id = round.lease ∧ hook = h.number := by
  cases hact with
  | ran round h current =>
    cases hnote
    exact ⟨round, h, rfl, rfl, rfl⟩
  | @answered round _ | checked round =>
    obtain ⟨-, hanswer⟩ | ⟨-, records, hanswer⟩ := round.answer_eq <;> rw [hanswer] at hnote <;>
      cases hnote
  | _ => cases hnote

theorem Act.running_call {hook : Hook} {current : Option LeaseId}
    (hact : Act policy failure pool call o) (hcall : o.call = .running round hook current) :
    o.note = some (.looked round.lease hook.number round.occasion current) := by
  cases hact with
  | looked htodo =>
    cases hcall
    rfl
  | ran round h current => cases current <;> cases hcall
  | _ => cases hcall

structure Lookups (s : State n) : Prop where
  looked : ∀ later earlier t id hook occasion current,
    s.trace = later ++ (t, .looked id hook occasion current) :: earlier →
      (current = some id ↔ ∀ u port, (u, .released id port) ∉ earlier) ∧
        (current = some id → occasion = .late)
  ran : ∀ later earlier t id hook current result,
    s.trace = later ++ (t, .ran id hook current result) :: earlier →
      ∃ occasion, (t, .looked id hook occasion current) ∈ earlier
  running : ∀ t round hook current, s.calls t = .running round hook current →
    (t, .looked round.lease hook.number round.occasion current) ∈ s.trace

theorem after_eq_append {event : Fin n × Note} {later earlier : List (Fin n × Note)}
    (h : (s.after t o).trace = later ++ event :: earlier) :
    event.1 = t ∧ o.note = some event.2 ∧ earlier = s.trace ∨
      ∃ later, s.trace = later ++ event :: earlier := by
  cases hnote : o.note with
  | none => exact .inr ⟨later, by simpa [State.after, hnote] using h⟩
  | some note =>
    simp only [State.after, hnote, Option.map_some, Option.toList_some, List.singleton_append] at h
    obtain ⟨-, heq⟩ | ⟨later, -, heq⟩ := List.cons_eq_append_iff.mp h
    · obtain ⟨rfl, rfl⟩ := List.cons.inj heq
      exact .inl ⟨rfl, rfl, rfl⟩
    · exact .inr ⟨later, heq⟩

theorem Lookups.after (h : Lookups s)
    (hlooked : ∀ id hook occasion current, o.note = some (.looked id hook occasion current) →
      (current = some id ↔ ∀ u port, (u, .released id port) ∉ s.trace) ∧
        (current = some id → occasion = .late))
    (hran : ∀ id hook current result, o.note = some (.ran id hook current result) →
      ∃ occasion, (t, .looked id hook occasion current) ∈ s.trace)
    (hrunning : ∀ round hook current, o.call = .running round hook current →
      o.note = some (.looked round.lease hook.number round.occasion current)) :
    Lookups (s.after t o) := by
  constructor
  · intro later earlier u id hook occasion current htrace
    obtain ⟨-, hnote, rfl⟩ | ⟨later, htrace⟩ := after_eq_append htrace
    · exact hlooked id hook occasion current hnote
    · exact h.looked later earlier u id hook occasion current htrace
  · intro later earlier u id hook current result htrace
    obtain ⟨rfl, hnote, rfl⟩ | ⟨later, htrace⟩ := after_eq_append htrace
    · exact hran id hook current result hnote
    · exact h.ran later earlier u id hook current result htrace
  · intro u round hook current hcall
    by_cases hu : u = t
    · subst hu
      simp only [State.after, Function.update_self] at hcall
      simp [State.after, hrunning round hook current hcall]
    · simp only [State.after, Function.update_of_ne hu] at hcall
      exact List.mem_append_right _ (h.running u round hook current hcall)

theorem Reachable.lookups (h : Reachable policy s) : Lookups s := by
  induction h with
  | refl => exact ⟨by simp, by simp, nofun⟩
  | @tail s _ hs hmove ih =>
    cases hmove with
    | begin hidle hopens => cases hopens <;> exact ih.after nofun nofun nofun
    | step t failure =>
      have hact := Call.act policy failure s.pool (s.calls t)
      apply ih.after
      · intro id hook occasion current hnote
        obtain ⟨round, hcall, rfl, rfl, rfl⟩ := hact.looked_note hnote
        have hround : (s.calls t).round? = some round := by rw [hcall]; rfl
        have hcurrent := Reachable.current?_iff hs (Reachable.claimed hs hround)
        refine ⟨hcurrent.trans not_mem_released, fun hown => ?_⟩
        apply Reachable.late_of_registered hs hround _ (hcurrent.mp hown)
        rw [hcall]
        exact nofun
      · intro id hook current result hnote
        obtain ⟨round, h, hcall, rfl, rfl⟩ := hact.ran_note hnote
        exact ⟨round.occasion, ih.running t round h current hcall⟩
      · intro round hook current hcall
        exact hact.running_call hcall
    | clone _ => exact ⟨ih.looked, ih.ran, ih.running⟩

/-- When a hook can see the lease that it was registered on. -/
structure OwnLease (s : State n) : Prop extends Lookups s where
  registry : ∀ t round, (s.calls t).round? = some round → (∀ r, s.calls t ≠ .release r) →
    (s.pool.registry[round.port]? = some round.lease ↔ s.Releasing round.lease) ∧
      (s.Releasing round.lease → round.occasion = .late)

theorem own_lease_while_releasing (h : Reachable policy s) : OwnLease s where
  toLookups := h.lookups
  registry t round hround hpast := by
    have hreleasing := h.releasing_iff (h.round_over hround).1
    exact ⟨(h.registry_iff (h.claimed hround)).trans hreleasing.symm,
      fun hheld => h.late_of_registered hround hpast (hreleasing.mp hheld)⟩

theorem own_lease_while_releasing_overtaken : ∃ s : State 2,
    Reachable ⟨⟨32768, 60999⟩, true, true⟩ s ∧ s.Releasing 1 ∧ OwnLease s :=
  ⟨_, reachable_overtaken, ⟨0, _, rfl, rfl⟩, own_lease_while_releasing reachable_overtaken⟩

theorem not_own_lease_unseen : ¬ ∀ s : State 2, Reachable ⟨⟨32768, 60999⟩, true, true⟩ s →
    ∀ t round hook current, s.calls t = .running round hook current →
      s.pool.registry[round.port]? ≠ some round.lease ∧ current ≠ some round.lease := by
  intro hunseen
  have hcall : (overtaken ⟨⟨32768, 60999⟩, true, true⟩ (0 : Fin 2) 1).calls 1 =
      .running ⟨1, 8080, .late, [], []⟩ ⟨5, "second", []⟩ (some 1) := by
    rfl
  exact (hunseen _ reachable_overtaken 1 _ _ _ hcall).2 rfl

end PortLease.Threads.Hooks
