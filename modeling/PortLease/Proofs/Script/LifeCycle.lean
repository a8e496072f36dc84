import PortLease.Proofs.Script.Kept

/-!
The life of a lease. It is held until the first close of it or until the last reference to it goes, and
then it is over for good: nobody finds it again, and whatever is still done with it changes neither the
ports that are taken nor any other lease, even if its port has been leased anew.
-/

namespace PortLease.Script

open Pool (Grants lease?_update lessHeld finished)

variable {setting : Setting} {m m' : Machine} {id : LeaseId} {pool : Pool Hook}

namespace Machine

def state? (m : Machine) (id : LeaseId) : Option LeaseState := (m.pool.lease? id).map Lease.state

inductive Copies (m : Machine) (id : LeaseId) (slot : Slot) : List Frame → Prop
  | clone {source : Slot} {todo : List Action} {current : Option LeaseId} {rest : List Frame}
      (hs : m.stack = .body (.clone source slot :: todo) current :: rest)
      (hslot : m.slots[source]? = some id) : Copies m id slot (.body todo current :: rest)
  | keep {todo : List Action} {rest : List Frame}
      (hs : m.stack = .body (.keep slot :: todo) (some id) :: rest) :
      Copies m id slot (.body todo (some id) :: rest)

/-- The next step gives up a reference to the lease: one in a slot that is emptied or filled anew, one
that a hook was given, or one that nobody takes. -/
inductive GivesUp (m : Machine) (id : LeaseId) : Std.TreeMap Slot LeaseId → List Frame → Prop
  | drop {slot : Slot} {todo : List Action} {current : Option LeaseId} {rest : List Frame}
      (hs : m.stack = .body (.drop slot :: todo) current :: rest)
      (hslot : m.slots[slot]? = some id) :
      GivesUp m id (m.slots.erase slot) (.body todo current :: rest)
  | ending {failure : Option Failure} {rest : List Frame}
      (hs : m.stack = .ending (some id) failure :: rest) :
      GivesUp m id m.slots (.ending none failure :: rest)
  | untaken {todo : List (Option Slot × LeaseId)} {rest : List Frame}
      (hs : m.stack = .handOver ((none, id) :: todo) :: rest) :
      GivesUp m id m.slots (.handOver todo :: rest)
  | replaced {slot : Slot} {other : LeaseId} {todo : List (Option Slot × LeaseId)}
      {rest : List Frame} (hs : m.stack = .handOver ((some slot, other) :: todo) :: rest)
      (hslot : m.slots[slot]? = some id) :
      GivesUp m id (m.slots.insert slot other) (.handOver todo :: rest)

end Machine

structure Spares (id : LeaseId) (pool pool' : Pool Hook) : Prop where
  taken : pool'.taken = pool.taken
  registry : pool'.registry = pool.registry
  others : ∀ x, x ≠ id → pool'.lease? x = pool.lease? x
  terms : terms pool' id = terms pool id
  hooks : hooksOf pool' id = hooksOf pool id

/-- What programs may still do with a lease that is over, and what comes of it. -/
structure Harmless (setting : Setting) (m : Machine) (id : LeaseId) : Prop where
  close : ∀ verify below, m.Closes id verify below → m.step setting = { m with stack := below }
  copy : ∀ slot below, m.Copies id slot below → ∃ pool, Spares id m.pool pool ∧
    m.step setting = { m with pool, stack := .handOver [(some slot, id)] :: below } ∧
    (m.slots[slot]? = none →
      m.run setting 3 = { m with pool, slots := m.slots.insert slot id, stack := below })
  giveUp : ∀ slots below, m.GivesUp id slots below → ∃ pool, Spares id m.pool pool ∧
    m.step setting = { m with pool, slots, stack := below }
  onClose : ∀ slot name todo current rest port,
    m.stack = .body (.onClose slot name [] :: todo) current :: rest → m.slots[slot]? = some id →
    (m.pool.lease? id).map Lease.port = some port →
    ∃ n, m.run setting n = { m with
      hooks := m.hooks + 1, stack := .body todo current :: rest
      trace := .hookEnded id m.hooks none ::
        .hookStarted id m.hooks name port (m.pool.current? port) m.pool.takenCount :: m.trace }

structure LeavesHeld (setting : Setting) (m m' : Machine) (id : LeaseId) : Prop where
  state : m'.state? id = some .held ∨ m'.state? id = some .closed ∨ m'.state? id = some .reclaimed
  closed_iff : m'.state? id = some .closed ↔
    m' = m.step setting ∧ ∃ verify below, m.Closes id verify below
  reclaimed_iff : m'.state? id = some .reclaimed ↔ m'.references id = 0

structure LifeCycle (setting : Setting) (m : Machine) : Prop where
  appears : ∀ id, m.state? id = none → ∀ m', Move setting m m' → m'.state? id ≠ some .reclaimed
  held : ∀ id, m.state? id = some .held →
    0 < m.references id ∧ ∀ m', Move setting m m' → LeavesHeld setting m m' id
  ended : ∀ id state, m.state? id = some state → state ≠ .held → ∀ m', Leads setting m m' →
    m'.state? id = some state ∧ ∀ number, m'.pool.find? number ≠ some id
  harmless : ∀ id state, m.state? id = some state → state ≠ .held → Harmless setting m id

namespace Machine

theorem state?_eq (m : Machine) (id : LeaseId) : m.state? id = (terms m.pool id).map Prod.snd := by
  simp [state?, terms, Function.comp_def]

theorem state?_eq_some {state : LeaseState} (h : m.state? id = some state) :
    ∃ l, m.pool.lease? id = some l ∧ l.state = state := Option.map_eq_some_iff.mp h

theorem Sound.references_held (h : m.Sound setting.policy) (hheld : m.state? id = some .held) :
    0 < m.references id := by
  obtain ⟨l, hl, hstate⟩ := state?_eq_some hheld
  rw [← h.holders hl]
  exact h.pool.holders_pos id l hl hstate

end Machine

theorem Keeps.state? (hk : Keeps m.pool m'.pool) {state : LeaseState}
    (h : m.state? id = some state) : m'.state? id = some state := by
  rw [Machine.state?_eq] at h ⊢
  obtain ⟨t, ht, rfl⟩ := Option.map_eq_some_iff.mp h
  rw [hk.terms id t ht, Option.map_some]

theorem Deed.leaves_held (h : m.Sound setting.policy) (hd : Deed setting m m')
    (hheld : m.state? id = some .held) :
    m'.state? id = some .held ∨
      (m'.state? id = some .closed ∧ m'.references id = m.references id ∧
        ∃ verify below, m.Closes id verify below) ∨
      (m'.state? id = some .reclaimed ∧ m'.references id = 0) := by
  have hkeep (hk : Keeps m.pool m'.pool) : m'.state? id = some .held := hk.state? hheld
  cases hd with
  | idle | pass | late | stored | handedOver | bodyEnded | hookEnded | queried | settle =>
    exact .inl (hkeep (.refl _))
  | grant _ _ _ _ _ hg | exhaust _ _ _ _ _ hg => exact .inl (hkeep (.grants hg))
  | share => exact .inl (hkeep .retain)
  | lessen => exact .inl (hkeep (.update (fun _ => rfl) (fun _ => rfl) (fun _ => rfl)))
  | register _ _ hl =>
    left
    rw [Machine.state?_eq] at hheld ⊢
    rw [terms_update hl]
    split
    · rename_i hx
      rw [hx, terms, hl] at hheld
      exact hheld
    · exact hheld
  | @hookStarted _ port =>
    left
    apply hkeep
    cases m.pool.current? port with
    | none => exact .refl _
    | some id => exact .retain
  | @ended f f' rest slots x l occasion become gone record hs hf hf' hcode hp hl _ hend hcause =>
    by_cases hx : id = x
    · right
      subst hx
      have hstate : Machine.state? { m with
          pool := (m.pool.update id become).release id l.port, slots
          stack := .hooks id l.port 0 l.hooks [] occasion :: f' :: rest
          trace := .log record :: m.trace } id = some (become l).state := by
        rw [Machine.state?_eq, terms_release, terms_update hl, if_pos rfl, Option.map_some]
      have hcount := hp id
      have hholders := h.holders hl
      rw [hstate, Machine.references_cons hs, Machine.references_cons rfl, List.flatMap_cons,
        List.count_append]
      rw [Machine.references_cons hs] at hholders
      cases hcause with
      | close hcloses =>
        left
        cases hend
        simp only [List.count_nil] at hcount
        refine ⟨rfl, ?_, _, _, hcloses⟩
        simp only [Frame.refs_hooks, List.count_nil]
        omega
      | last hlast =>
        right
        cases hend
        simp only [List.count_singleton_self] at hcount
        refine ⟨rfl, ?_⟩
        simp only [Frame.refs_hooks, List.count_nil]
        omega
    · left
      rw [Machine.state?_eq] at hheld ⊢
      rw [terms_release, terms_update hl, if_neg hx]
      exact hheld

theorem Deed.appears (hd : Deed setting m m') (hnone : m.state? id = none) :
    m'.state? id ≠ some .reclaimed := by
  have hl : m.pool.lease? id = none := Option.map_eq_none_iff.mp hnone
  have hsame (hpool : m'.pool.lease? id = none) : m'.state? id ≠ some .reclaimed := by
    simp [Machine.state?, hpool]
  have hupdate {x : LeaseId} {f : Lease Hook → Lease Hook} : (m.pool.update x f).lease? id = none := by
    rw [lease?_update]
    split
    · rename_i hx
      rw [← hx, hl, Option.map_none]
    · exact hl
  have hgrants {pool : Pool Hook} {ids : List LeaseId} (hg : Grants setting.policy m.pool pool ids) :
      (pool.lease? id).map Lease.state ≠ some .reclaimed := by
    intro hstate
    obtain ⟨l, hl', hreclaimed⟩ := Option.map_eq_some_iff.mp hstate
    have hle : m.pool.nextId ≤ id := by
      apply Nat.le_of_not_lt
      intro hlt
      have hold := hg.old id hlt
      rw [hl, hl'] at hold
      cases hold
    by_cases hmem : id ∈ ids
    · obtain ⟨-, port, hport⟩ := hg.granted id hmem
      rw [hl'] at hport
      obtain rfl := Option.some.inj hport
      cases hreclaimed
    · have hclosed := (hg.givenUp id l hle hmem hl').1
      rw [hclosed] at hreclaimed
      cases hreclaimed
  cases hd with
  | idle | pass | late | stored | handedOver | bodyEnded | hookEnded | queried | settle =>
    exact hsame hl
  | grant _ _ _ _ _ hg | exhaust _ _ _ _ _ hg => exact hgrants hg
  | share =>
    apply hsame
    rw [Pool.retain_eq]
    exact hupdate
  | lessen | register => exact hsame hupdate
  | @hookStarted _ port =>
    apply hsame
    cases m.pool.current? port with
    | none => exact hl
    | some x =>
      simp only [Option.elim_some, Pool.retain_eq]
      exact hupdate
  | ended =>
    apply hsame
    rw [Pool.lease?_release]
    exact hupdate

theorem Machine.Closes.step {verify : Bool} {below : List Frame} (h : m.Closes id verify below) :
    m.step setting = ({ m with stack := below } : Machine).close id verify := by
  cases h with
  | slot hs hslot => simp only [Machine.step, hs, push, perform, withSlot, hslot]
  | current hs => simp only [Machine.step, hs, push, perform]

theorem Machine.Closes.length {verify : Bool} {below : List Frame} (h : m.Closes id verify below) :
    m.stack.length = below.length := by
  cases h with
  | slot hs | current hs =>
    rw [hs]
    rfl

theorem Machine.Closes.step_held {verify : Bool} {below : List Frame} (h : m.Closes id verify below)
    {l : Lease Hook} (hl : m.pool.lease? id = some l) (hheld : l.state = .held) :
    m.step setting =
      { m with
        pool := (m.pool.update id (finished .closed)).release id l.port
        stack := .hooks id l.port 0 l.hooks [] (.close verify) :: below
        trace := .log (.released l.port id) :: m.trace } := by
  simp only [h.step, close, Pool.close_held hl hheld, push, log, emit]

theorem Machine.Closes.closed {verify : Bool} {below : List Frame} (h : m.Closes id verify below)
    (hheld : m.state? id = some .held) : (m.step setting).state? id = some .closed := by
  obtain ⟨l, hl, hstate⟩ := state?_eq_some hheld
  rw [h.step_held hl hstate, state?_eq, terms_release, terms_update hl, if_pos rfl]
  rfl

theorem Reachable.leaves_held (h : Reachable setting m) (hheld : m.state? id = some .held)
    (hmove : Move setting m m') : LeavesHeld setting m m' id := by
  have hsound := h.sound
  have hpos := hsound.references_held hheld
  have hpos' : m'.state? id = some .held → 0 < m'.references id :=
    (h.leads (.single hmove)).sound.references_held
  have hnext : m'.state? id = some .held ∨
      (m'.state? id = some .closed ∧ m'.references id = m.references id ∧ m' = m.step setting ∧
        ∃ verify below, m.Closes id verify below) ∨
      (m'.state? id = some .reclaimed ∧ m'.references id = 0) := by
    cases hmove with
    | step =>
      obtain hsame | ⟨hclosed, hrefs, hcloses⟩ | hlast :=
        Deed.leaves_held hsound (Machine.step_deed hsound) hheld
      · exact .inl hsame
      · exact .inr (.inl ⟨hclosed, hrefs, rfl, hcloses⟩)
      · exact .inr (.inr hlast)
    | redirect todo =>
      left
      rw [Machine.state?, Machine.redirect_pool]
      exact hheld
  obtain hsame | ⟨hclosed, hrefs, hcloses⟩ | ⟨hreclaimed, hzero⟩ := hnext
  · have hrefs := hpos' hsame
    refine ⟨.inl hsame, ⟨?_, ?_⟩, ⟨?_, ?_⟩⟩
    · intro hclosed
      rw [hsame] at hclosed
      cases hclosed
    · rintro ⟨rfl, verify, below, hcloses⟩
      exact hcloses.closed hheld
    · intro hreclaimed
      rw [hsame] at hreclaimed
      cases hreclaimed
    · intro hzero
      omega
  · refine ⟨.inr (.inl hclosed), ⟨fun _ => hcloses, fun _ => hclosed⟩, ⟨?_, ?_⟩⟩
    · intro hreclaimed
      rw [hclosed] at hreclaimed
      cases hreclaimed
    · intro hzero
      omega
  · refine ⟨.inr (.inr hreclaimed), ⟨?_, ?_⟩, ⟨fun _ => hzero, fun _ => hreclaimed⟩⟩
    · intro hclosed
      rw [hreclaimed] at hclosed
      cases hclosed
    · rintro ⟨rfl, verify, below, hcloses⟩
      exact hcloses.closed hheld

theorem Reachable.stays_over (h : Reachable setting m) {state : LeaseState}
    (hstate : m.state? id = some state) (hover : state ≠ .held) (hl : Leads setting m m') :
    m'.state? id = some state := by
  rw [Machine.state?_eq] at hstate ⊢
  obtain ⟨⟨port, _⟩, hterms, rfl⟩ := Option.map_eq_some_iff.mp hstate
  suffices hsame : terms m'.pool id = some (port, _) by rw [hsame, Option.map_some]
  induction hl with
  | refl => exact hterms
  | tail hl hmove ih => exact (Reachable.turn (h.leads hl) hmove).shift.stays_ended ih hover

theorem Reachable.not_found (h : Reachable setting m) {state : LeaseState}
    (hstate : m.state? id = some state) (hover : state ≠ .held) (number : Int) :
    m.pool.find? number ≠ some id := by
  intro hfound
  obtain ⟨port, -, hcurrent⟩ := Pool.find?_eq_some_iff.mp hfound
  obtain ⟨l, hl, hheld, -⟩ := h.sound.current?_iff.mp hcurrent
  rw [Machine.state?, hl, Option.map_some, hheld] at hstate
  exact hover (Option.some.inj hstate).symm

theorem Spares.update {f : Lease Hook → Lease Hook} (hport : ∀ l, (f l).port = l.port)
    (hstate : ∀ l, (f l).state = l.state) (hhooks : ∀ l, (f l).hooks = l.hooks) :
    Spares id pool (pool.update id f) where
  taken := Pool.taken_update f
  registry := Pool.registry_update f
  others x hx := by rw [lease?_update, if_neg hx]
  terms := by
    cases hl : pool.lease? id with
    | none => simp [Pool.update, hl]
    | some l => rw [terms_update hl, if_pos rfl, hport, hstate, Script.terms, hl, Option.map_some]
  hooks := by
    cases hl : pool.lease? id with
    | none => simp [Pool.update, hl]
    | some l => rw [hooksOf_update hl, if_pos rfl, hhooks, hooksOf, hl, Option.map_some, Option.getD_some]

section Over

variable {l : Lease Hook}

theorem Machine.Closes.step_over {verify : Bool} {below : List Frame} (h : m.Closes id verify below)
    (hl : m.pool.lease? id = some l) (hover : l.state ≠ .held) :
    m.step setting = { m with stack := below } := by
  rw [h.step, Machine.close, Pool.close_over hl hover]

theorem Machine.Copies.step {slot : Slot} {below : List Frame} (h : m.Copies id slot below) :
    m.step setting =
      { m with pool := m.pool.retain id, stack := .handOver [(some slot, id)] :: below } := by
  cases h with
  | clone hs hslot => simp only [Machine.step, hs, push, perform, withSlot, hslot, copy]
  | keep hs => simp only [Machine.step, hs, push, perform, copy]

theorem Machine.run_succ {f : Frame} {rest : List Frame} (hs : m.stack = f :: rest) (n : Nat) :
    m.run setting (n + 1) = (m.step setting).run setting n := by
  rw [run, hs, List.isEmpty_cons, if_neg Bool.false_ne_true]

theorem Machine.Copies.run {slot : Slot} {below : List Frame} (h : m.Copies id slot below)
    (hempty : m.slots[slot]? = none) : m.run setting 3 =
      { m with
        pool := m.pool.retain id, slots := m.slots.insert slot id, stack := below } := by
  have hrun : m.run setting 3 = (m.step setting).run setting 2 := by
    cases h with
    | clone hs hslot => exact run_succ hs 2
    | keep hs => exact run_succ hs 2
  rw [hrun, h.step, run_succ rfl]
  simp only [Machine.step, push, store, hempty]
  rfl

theorem Machine.GivesUp.step {slots : Std.TreeMap Slot LeaseId} {below : List Frame}
    (h : m.GivesUp id slots below) :
    m.step setting = ({ m with slots, stack := below } : Machine).letGo id := by
  cases h with
  | drop hs hslot => simp only [Machine.step, hs, push, perform, withSlot, hslot]
  | ending hs => simp only [Machine.step, hs, push]
  | untaken hs => simp only [Machine.step, hs, push, store]
  | replaced hs hslot => simp only [Machine.step, hs, push, store, hslot]

theorem Machine.letGo_over (hl : m.pool.lease? id = some l) (hover : l.state ≠ .held) :
    m.letGo id = { m with pool := m.pool.update id lessHeld } := by
  rw [letGo, Pool.letGo_more hl fun hheld => absurd hheld hover]

theorem Machine.late_run {port : Port} {hook : Hook} {rest : List Frame}
    (hs : m.stack = .hooks id port 0 [hook] [] .late :: rest) (hidle : hook.body = [])
    (hcurrent : ∀ x, m.pool.current? port = some x → ∃ l, m.pool.lease? x = some l ∧ 0 < l.holders) :
    ∃ n, m.run setting n = { m with
      stack := rest
      trace := .hookEnded id hook.number none :: .hookStarted id hook.number hook.name port
        (m.pool.current? port) m.pool.takenCount :: m.trace } := by
  obtain ⟨pool, slots, stack, asked, queries, hooks, outcome, trace⟩ := m
  obtain rfl : stack = _ := hs
  obtain ⟨number, name, body⟩ := hook
  obtain rfl : body = [] := hidle
  dsimp only at hcurrent ⊢
  cases hc : pool.current? port with
  | none =>
    refine ⟨4, ?_⟩
    rw [run_succ rfl]
    simp only [step, push, startHook, hc, emit]
    rfl
  | some x =>
    refine ⟨5, ?_⟩
    obtain ⟨l, hl, hpos⟩ := hcurrent x hc
    have hmore : (pool.retain x).lease? x = some { l with holders := l.holders + 1 } := by
      rw [Pool.retain_eq, lease?_update, if_pos rfl, hl, Option.map_some]
    have hback : (pool.retain x).letGo x = (none, pool) := by
      rw [Pool.letGo_more hmore fun _ => Nat.succ_lt_succ hpos, Pool.retain_eq,
        Pool.update_update fun _ _ => rfl]
    rw [run_succ rfl, run_succ rfl, run_succ rfl]
    simp only [step, push, startHook, hc, emit, letGo, hback]
    rfl

theorem Reachable.harmless (h : Reachable setting m) {state : LeaseState}
    (hstate : m.state? id = some state) (hover : state ≠ .held) : Harmless setting m id := by
  obtain ⟨l, hl, rfl⟩ := Machine.state?_eq_some hstate
  constructor
  · intro verify below hcloses
    exact hcloses.step_over hl hover
  · intro slot below hcopies
    refine ⟨_, ?_, hcopies.step, hcopies.run⟩
    rw [Pool.retain_eq]
    exact .update (fun _ => rfl) (fun _ => rfl) (fun _ => rfl)
  · intro slots below hgives
    have hspares : Spares id m.pool (m.pool.update id lessHeld) :=
      .update (fun _ => rfl) (fun _ => rfl) (fun _ => rfl)
    refine ⟨_, hspares, ?_⟩
    rw [hgives.step]
    exact Machine.letGo_over hl hover
  · intro slot name todo current rest port hs hslot hport
    rw [hl, Option.map_some, Option.some.injEq] at hport
    subst hport
    have hstep : m.step setting = { m with
        hooks := m.hooks + 1
        stack := .hooks id l.port 0 [⟨m.hooks, name, []⟩] [] .late :: .body todo current :: rest } := by
      simp only [Machine.step, hs, Machine.push, Machine.perform, Machine.withSlot, hslot,
        Machine.onClose, Pool.addHook_over hl hover, hl]
    have hcurrent (x : LeaseId) (hx : m.pool.current? l.port = some x) :
        ∃ k, m.pool.lease? x = some k ∧ 0 < k.holders := by
      obtain ⟨k, hk, hheld, -⟩ := h.sound.current?_iff.mp hx
      exact ⟨k, hk, h.sound.pool.holders_pos x k hk hheld⟩
    have hlate : ∃ n, (m.step setting).run setting n = { m with
        hooks := m.hooks + 1, stack := .body todo current :: rest
        trace := .hookEnded id m.hooks none ::
          .hookStarted id m.hooks name l.port (m.pool.current? l.port) m.pool.takenCount ::
          m.trace } := by
      have hs' : (m.step setting).stack =
          .hooks id l.port 0 [⟨m.hooks, name, []⟩] [] .late :: .body todo current :: rest := by
        rw [hstep]
      obtain ⟨n, hn⟩ := Machine.late_run hs' rfl (by rw [hstep]; exact hcurrent)
      refine ⟨n, hn.trans ?_⟩
      rw [hstep]
    obtain ⟨n, hn⟩ := hlate
    refine ⟨n + 1, ?_⟩
    rw [Machine.run_succ hs, hn]

end Over

theorem life_cycle (h : Reachable setting m) : LifeCycle setting m := by
  constructor
  · intro id hnone m' hmove
    cases hmove with
    | step => exact Deed.appears (Machine.step_deed h.sound) hnone
    | redirect todo =>
      rw [Machine.state?, Machine.redirect_pool, ← Machine.state?, hnone]
      intro hsome
      cases hsome
  · intro id hheld
    exact ⟨h.sound.references_held hheld, fun m' hmove => h.leaves_held hheld hmove⟩
  · intro id state hstate hover m' hl
    have hstays := h.stays_over hstate hover hl
    exact ⟨hstays, fun number => (h.leads hl).not_found hstays hover number⟩
  · intro id state hstate hover
    exact h.harmless hstate hover

def Machine.staleSlot : Machine :=
  (({} : Machine).start [.reserve 5000 (some "a"), .close "a" false, .reserve 5000 (some "b"),
    .close "a" true]).run Setting.lone 8

theorem life_cycle_staleSlot :
    Reachable Setting.lone .staleSlot ∧ LifeCycle Setting.lone .staleSlot ∧
      Machine.staleSlot.state? 1 = some .closed ∧ Machine.staleSlot.state? 2 = some .held ∧
      Machine.staleSlot.slots["a"]? = some 1 ∧
      Machine.staleSlot.pool.registry[(5000 : Port)]? = some 2 := by
  have h : Reachable Setting.lone .staleSlot := (Reachable.fresh.start rfl _).run 8
  exact ⟨h, life_cycle h, by decide +kernel, by decide +kernel, by decide +kernel, by decide +kernel⟩

end PortLease.Script
