import PortLease.Proofs.Script.References

/-!
All that one step of a sound machine can do. `step_deed` looks at every frame and every action once; what
holds along runs is proved from the deeds, each of which says what becomes of the pool, of the frames on
top and of the trace.
-/

namespace PortLease.Script

open Pool (Grants World lease?_update lessHeld finished)

variable {setting : Setting} {m : Machine}

def Frame.isCode : Frame → Bool
  | .body .. | .ending .. => true
  | _ => false

def Frame.isPlain : Frame → Bool
  | .hooks .. | .check .. => false
  | _ => true

theorem Frame.isPlain_of_isCode {f : Frame} (hf : f.isCode) : f.isPlain := by
  cases f <;> first | rfl | cases hf

def Event.isCalm : Event → Bool
  | .hookStarted .. | .hookEnded .. | .queried _ => false
  | _ => true

def Passes (slots slots' : Std.TreeMap Slot LeaseId) (f f' : Frame) (gone : List LeaseId) : Prop :=
  ∀ x, (slotsOf slots' x).card + f'.refs.count x + gone.count x =
    (slotsOf slots x).card + f.refs.count x

/-- The next action of the machine closes the lease; `below` is what is left to do when it returns. -/
inductive Machine.Closes (m : Machine) (id : LeaseId) (verify : Bool) : List Frame → Prop
  | slot {slot : Slot} {todo : List Action} {current : Option LeaseId} {rest : List Frame}
      (hs : m.stack = .body (.close slot verify :: todo) current :: rest)
      (hslot : m.slots[slot]? = some id) : Closes m id verify (.body todo current :: rest)
  | current {todo : List Action} {rest : List Frame}
      (hs : m.stack = .body (.closeCurrent verify :: todo) (some id) :: rest) :
      Closes m id verify (.body todo (some id) :: rest)

inductive Machine.Cause (m : Machine) (id : LeaseId) (l : Lease Hook) (below : List Frame) :
    Occasion → Prop
  | close {verify : Bool} (h : m.Closes id verify below) : Cause m id l below (.close verify)
  | last (h : l.holders ≤ 1) : Cause m id l below .reclaim

inductive Ending (id : LeaseId) : Occasion → (Lease Hook → Lease Hook) → List LeaseId → Prop
  | close (verify : Bool) : Ending id (.close verify) (finished .closed) []
  | reclaim : Ending id .reclaim (fun l => finished .reclaimed (lessHeld l)) [id]

def Frame.report? : Frame → Option (Port × List String)
  | .hooks _ port _ [] failures (.close _) => some (port, failures)
  | .check port _ failures => some (port, failures)
  | _ => none

def settled (frame : Frame) (rest : List Frame) : List Frame :=
  match frame.report?, rest with
  | some (port, failures), .body todo current :: below =>
    if failures.isEmpty then .body todo current :: below
    else .ending current (some (.error (.hooksFailed port failures))) :: below
  | _, _ => rest

def Frame.isLast : Frame → Bool
  | .hooks _ _ _ [] .. | .check .. => true
  | _ => false

theorem Frame.isCode_of_isLast {f : Frame} (hf : f.isLast) : f.isCode = false := by
  cases f <;> first | rfl | cases hf

inductive Deed (setting : Setting) (m : Machine) : Machine → Prop
  | idle (hs : m.stack = []) : Deed setting m m
  | pass {f f' : Frame} {rest : List Frame} (events : List Event) (hs : m.stack = f :: rest)
      (hf : f.isCode) (hf' : f'.isCode) (hrefs : f'.refs = f.refs) (he : ∀ e ∈ events, e.isCalm) :
      Deed setting m { m with stack := f' :: rest, trace := events ++ m.trace }
  | grant {f f' : Frame} {rest : List Frame} {pool : Pool Hook} {asked : Pool.Asked}
      {ids : List LeaseId} {handed : List (Option Slot × LeaseId)} (events : List Event)
      (hs : m.stack = f :: rest) (hf : f.isCode) (hf' : f'.isCode) (hrefs : f'.refs = f.refs)
      (hg : Grants setting.policy m.pool pool ids) (hids : (handed.map Prod.snd).Perm ids)
      (he : ∀ e ∈ events, e.isCalm) :
      Deed setting m
        { m with
          pool, asked, stack := .handOver handed :: f' :: rest, trace := events ++ m.trace }
  | exhaust {f f' : Frame} {rest : List Frame} {pool : Pool Hook} {asked : Pool.Asked}
      (events : List Event) (hs : m.stack = f :: rest) (hf : f.isCode) (hf' : f'.isCode)
      (hrefs : f'.refs = f.refs) (hg : Grants setting.policy m.pool pool [])
      (he : ∀ e ∈ events, e.isCalm) :
      Deed setting m { m with pool, asked, stack := f' :: rest, trace := events ++ m.trace }
  | share {f f' : Frame} {rest : List Frame} {slot : Option Slot} {id : LeaseId} {l : Lease Hook}
      (events : List Event) (hs : m.stack = f :: rest) (hf : f.isCode) (hf' : f'.isCode)
      (hrefs : f'.refs = f.refs) (hl : m.pool.lease? id = some l) (he : ∀ e ∈ events, e.isCalm) :
      Deed setting m
        { m with
          pool := m.pool.retain id, stack := .handOver [(slot, id)] :: f' :: rest
          trace := events ++ m.trace }
  | lessen {f f' : Frame} {rest : List Frame} {slots : Std.TreeMap Slot LeaseId} {id : LeaseId}
      {l : Lease Hook} (hs : m.stack = f :: rest) (hf : f.isPlain) (hf' : f'.isPlain)
      (hcode : f'.isCode = f.isCode) (hp : Passes m.slots slots f f' [id])
      (hl : m.pool.lease? id = some l)
      (hmore : l.state = .held → 1 < l.holders) :
      Deed setting m
        { m with pool := m.pool.update id lessHeld, slots, stack := f' :: rest }
  | ended {f f' : Frame} {rest : List Frame} {slots : Std.TreeMap Slot LeaseId} {id : LeaseId}
      {l : Lease Hook} {occasion : Occasion} {become : Lease Hook → Lease Hook} {gone : List LeaseId}
      {record : LogRecord} (hs : m.stack = f :: rest) (hf : f.isPlain) (hf' : f'.isPlain)
      (hcode : f'.isCode = f.isCode) (hp : Passes m.slots slots f f' gone)
      (hl : m.pool.lease? id = some l) (hheld : l.state = .held)
      (hend : Ending id occasion become gone) (hcause : m.Cause id l (f' :: rest) occasion) :
      Deed setting m
        { m with
          pool := (m.pool.update id become).release id l.port, slots
          stack := .hooks id l.port 0 l.hooks [] occasion :: f' :: rest
          trace := .log record :: m.trace }
  | register {slot : Slot} {name : String} {body todo : List Action} {current : Option LeaseId}
      {rest : List Frame} {id : LeaseId} {l : Lease Hook}
      (hs : m.stack = .body (.onClose slot name body :: todo) current :: rest)
      (hslot : m.slots[slot]? = some id) (hl : m.pool.lease? id = some l) (hheld : l.state = .held) :
      Deed setting m
        { m with
          pool := m.pool.update id fun l => { l with hooks := ⟨m.hooks, name, body⟩ :: l.hooks }
          hooks := m.hooks + 1, stack := .body todo current :: rest }
  | late {slot : Slot} {name : String} {body todo : List Action} {current : Option LeaseId}
      {rest : List Frame} {id : LeaseId} {l : Lease Hook}
      (hs : m.stack = .body (.onClose slot name body :: todo) current :: rest)
      (hslot : m.slots[slot]? = some id) (hl : m.pool.lease? id = some l)
      (hover : l.state ≠ .held) :
      Deed setting m
        { m with
          hooks := m.hooks + 1
          stack := .hooks id l.port 0 [⟨m.hooks, name, body⟩] [] .late :: .body todo current :: rest }
  | stored {f f' : Frame} {rest : List Frame} {slots : Std.TreeMap Slot LeaseId}
      (hs : m.stack = f :: rest) (hf : f.isPlain) (hf' : f'.isPlain) (hcode : f'.isCode = f.isCode)
      (hp : Passes m.slots slots f f' []) :
      Deed setting m { m with slots, stack := f' :: rest }
  | handedOver {rest : List Frame} (hs : m.stack = .handOver [] :: rest) :
      Deed setting m { m with stack := rest }
  | bodyEnded {failure outcome : Option Failure} {rest : List Frame}
      (hs : m.stack = .ending none failure :: rest)
      (hrest : ∀ lease port running todo failures occasion below,
        rest ≠ .hooks lease port running todo failures occasion :: below) :
      Deed setting m { m with stack := rest, outcome }
  | hookEnded {failure : Option Failure} {lease : LeaseId} {port : Port} {running : Nat}
      {todo : List Hook} {failures : List String} {occasion : Occasion} {rest : List Frame}
      (hs : m.stack =
        .ending none failure :: .hooks lease port running todo failures occasion :: rest) :
      Deed setting m
        { m with
          stack := .hooks lease port running todo
            (failures ++ (failure.map Failure.text).toList) occasion :: rest
          trace := .hookEnded lease running failure :: m.trace }
  | hookStarted {lease : LeaseId} {port : Port} {running : Nat} {hook : Hook} {todo : List Hook}
      {failures : List String} {occasion : Occasion} {rest : List Frame}
      (hs : m.stack = .hooks lease port running (hook :: todo) failures occasion :: rest) :
      Deed setting m
        { m with
          pool := (m.pool.current? port).elim m.pool m.pool.retain
          stack := .body hook.body (m.pool.current? port) ::
            .hooks lease port hook.number todo failures occasion :: rest
          trace := .hookStarted lease hook.number hook.name port (m.pool.current? port)
            m.pool.takenCount :: m.trace }
  | queried {lease : LeaseId} {port : Port} {running : Nat} {failures : List String}
      {rest : List Frame} (hs : m.stack = .hooks lease port running [] failures (.close true) :: rest)
      (hcheck : setting.policy.checkRelease) :
      Deed setting m
        { m with
          queries := m.queries + 1
          stack := .body setting.reaction none :: .check port m.queries failures :: rest
          trace := .queried (some port) :: m.trace }
  | settle {f : Frame} {rest : List Frame} (events : List Event) (hs : m.stack = f :: rest)
      (hf : f.isLast) (he : ∀ e ∈ events, e.isCalm) :
      Deed setting m { m with stack := settled f rest, trace := events ++ m.trace }

namespace Machine

variable {id : LeaseId}

theorem isCalm_logs (records : List LogRecord) : ∀ e ∈ records.map Event.log, e.isCalm := by
  intro e he
  obtain ⟨record, -, rfl⟩ := List.mem_map.mp he
  rfl

theorem letGo_deed (h : m.Sound setting.policy) {f f' : Frame} {rest : List Frame}
    {slots : Std.TreeMap Slot LeaseId} (hs : m.stack = f :: rest) (hf : f.isPlain)
    (hf' : f'.isPlain) (hcode : f'.isCode = f.isCode) (hp : Passes m.slots slots f f' [id]) :
    Deed setting m (({ m with slots, stack := f' :: rest } : Machine).letGo id) := by
  have hpos : 0 < m.references id := by
    have hid := hp id
    simp only [List.count_singleton_self] at hid
    simp only [references, hs, List.flatMap_cons, List.count_append]
    omega
  obtain ⟨l, hl, hholders⟩ := h.lease hpos
  unfold letGo
  by_cases hlast : l.state = .held ∧ l.holders ≤ 1
  · rw [Pool.letGo_last hl hlast.1 hlast.2]
    exact .ended (l := l) hs hf hf' hcode hp hl hlast.1 .reclaim (.last hlast.2)
  · have hmore : l.state = .held → 1 < l.holders := fun hheld => by
      have := mt (And.intro hheld) hlast
      omega
    rw [Pool.letGo_more hl hmore]
    exact .lessen hs hf hf' hcode hp hl hmore

theorem store_deed (h : m.Sound setting.policy) {slot : Option Slot}
    {todo : List (Option Slot × LeaseId)} {rest : List Frame}
    (hs : m.stack = .handOver ((slot, id) :: todo) :: rest) :
    Deed setting m (({ m with stack := .handOver todo :: rest } : Machine).store slot id) := by
  cases slot with
  | none =>
    refine letGo_deed h hs rfl rfl rfl fun x => ?_
    simp only [Frame.refs, List.map_cons, List.count_cons, List.count_nil]
    omega
  | some slot =>
    have hcard (x : LeaseId) := @card_slotsOf_insert id x slot m.slots
    simp only [store]
    split
    · rename_i hold
      refine .stored hs rfl rfl rfl fun x => ?_
      have := hcard x
      simp only [hold, Option.toList_none, Frame.refs, List.map_cons, List.count_cons,
        List.count_nil] at this ⊢
      omega
    · rename_i old hold
      refine letGo_deed h hs rfl rfl rfl fun x => ?_
      have := hcard x
      simp only [hold, Option.toList_some, Frame.refs, List.map_cons, List.count_cons,
        List.count_nil] at this ⊢
      omega

theorem endBody_deed {failure : Option Failure} {rest : List Frame}
    (hs : m.stack = .ending none failure :: rest) :
    Deed setting m (({ m with stack := rest } : Machine).endBody failure) := by
  unfold endBody
  split
  · rename_i hr
    obtain rfl := hr
    exact .hookEnded hs
  · rename_i hr
    obtain rfl := hr
    exact .bodyEnded hs fun _ _ _ _ _ _ _ h => List.cons_ne_nil _ _ h.symm
  · rename_i hhooks _
    exact .bodyEnded hs hhooks

theorem settle_eq {f : Frame} {port : Port} {failures : List String}
    (hf : f.report? = some (port, failures)) :
    m.settle port failures = { m with stack := settled f m.stack } := by
  obtain ⟨pool, slots, stack, asked, queries, hooks, outcome, trace⟩ := m
  unfold settle settled raise
  rw [hf]
  cases stack with
  | nil => simp
  | cons g below => cases g <;> cases failures <;> rfl

theorem finishHooks_deed {lease : LeaseId} {port : Port} {running : Nat} {failures : List String}
    {occasion : Occasion} {rest : List Frame}
    (hs : m.stack = .hooks lease port running [] failures occasion :: rest) :
    Deed setting m
      (({ m with stack := rest } : Machine).finishHooks setting port failures occasion) := by
  have hquiet (records : List LogRecord) (hnone : occasion = .reclaim ∨ occasion = .late) :
      Deed setting m (({ m with stack := rest } : Machine).logAll records) := by
    have hdeed : Deed setting m _ := .settle (records.map Event.log).reverse hs rfl
      fun e he => isCalm_logs records e (List.mem_reverse.mp he)
    rw [logAll_eq]
    obtain rfl | rfl := hnone <;> exact hdeed
  cases occasion with
  | reclaim => exact hquiet _ (.inl rfl)
  | late => exact hquiet _ (.inr rfl)
  | close verify =>
    simp only [finishHooks]
    split
    · rename_i hcheck
      obtain ⟨rfl, hcheck⟩ := Bool.and_eq_true_iff.mp hcheck
      exact .queried hs hcheck
    · rw [settle_eq (f := .hooks lease port running [] failures (.close verify)) rfl]
      exact .settle [] hs rfl (by simp)

theorem check_deed {port : Port} {query : Nat} {failures : List String} {rest : List Frame}
    (hs : m.stack = .check port query failures :: rest) (first second : List LogRecord) :
    Deed setting m
      (((({ m with stack := rest } : Machine).logAll first).logAll second).settle port failures) := by
  simp only [logAll_eq]
  rw [settle_eq (f := .check port query failures) rfl]
  have hdeed : Deed setting m _ := .settle ((first ++ second).map Event.log).reverse hs rfl
    fun e he => isCalm_logs (first ++ second) e (List.mem_reverse.mp he)
  simpa only [List.map_append, List.reverse_append, List.append_assoc] using hdeed

theorem startHook_eq (m : Machine) (lease : LeaseId) (port : Port) (hook : Hook) :
    m.startHook lease port hook = { m with
      pool := (m.pool.current? port).elim m.pool m.pool.retain
      stack := .body hook.body (m.pool.current? port) :: m.stack
      trace := .hookStarted lease hook.number hook.name port (m.pool.current? port)
        m.pool.takenCount :: m.trace } := by
  unfold startHook
  simp only [push, emit]
  cases m.pool.current? port <;> rfl

theorem startHook_deed {lease : LeaseId} {port : Port} {running : Nat} {hook : Hook}
    {todo : List Hook} {failures : List String} {occasion : Occasion} {rest : List Frame}
    (hs : m.stack = .hooks lease port running (hook :: todo) failures occasion :: rest) :
    Deed setting m
      ((({ m with stack := rest } : Machine).push
        (.hooks lease port hook.number todo failures occasion)).startHook lease port hook) := by
  rw [startHook_eq]
  exact .hookStarted hs

theorem references_slot {slot : Slot} (h : m.slots[slot]? = some id) : 0 < m.references id :=
  Nat.add_pos_left (Finset.card_pos.mpr ⟨slot, mem_slotsOf.mpr h⟩) _

theorem references_frame {f : Frame} {rest : List Frame} (hs : m.stack = f :: rest)
    (hid : id ∈ f.refs) : 0 < m.references id := by
  refine Nat.add_pos_right _ (List.count_pos_iff.mpr ?_)
  rw [hs, List.flatMap_cons]
  exact List.mem_append_left _ hid

section Actions

variable {action : Action} {todo : List Action} {current : Option LeaseId} {rest : List Frame}

theorem Closes.references {verify : Bool} {below : List Frame} (h : m.Closes id verify below) :
    0 < m.references id := by
  cases h with
  | slot hs hslot => exact references_slot hslot
  | current hs => exact references_frame hs (by simp [Frame.refs])

theorem close_deed (h : m.Sound setting.policy) (hs : m.stack = .body (action :: todo) current :: rest)
    {verify : Bool} (hcloses : m.Closes id verify (.body todo current :: rest)) :
    Deed setting m (({ m with stack := .body todo current :: rest } : Machine).close id verify) := by
  obtain ⟨l, hl, -⟩ := h.lease hcloses.references
  unfold close
  by_cases hheld : l.state = .held
  · rw [Pool.close_held hl hheld]
    exact .ended hs rfl rfl rfl (fun _ => rfl) hl hheld (.close verify) (.close hcloses)
  · rw [Pool.close_over hl hheld]
    exact .pass [] hs rfl rfl rfl (by simp)

theorem onClose_deed (h : m.Sound setting.policy) {slot : Slot} {name : String} {body : List Action}
    (hs : m.stack = .body (.onClose slot name body :: todo) current :: rest)
    (hslot : m.slots[slot]? = some id) :
    Deed setting m
      (({ m with stack := .body todo current :: rest } : Machine).onClose id name body) := by
  obtain ⟨l, hl, -⟩ := h.lease (references_slot hslot)
  simp only [onClose]
  by_cases hheld : l.state = .held
  · rw [Pool.addHook_held hl hheld]
    exact .register hs hslot hl hheld
  · rw [Pool.addHook_over hl hheld]
    simp only [hl]
    exact .late hs hslot hl hheld

theorem share_deed (h : m.Sound setting.policy) (hs : m.stack = .body (action :: todo) current :: rest)
    (hid : 0 < m.references id) (slot : Slot) :
    Deed setting m (({ m with stack := .body todo current :: rest } : Machine).copy id slot) := by
  obtain ⟨l, hl, -⟩ := h.lease hid
  exact .share [] hs rfl rfl rfl hl (by simp)

theorem withSlot_deed (hs : m.stack = .body (action :: todo) current :: rest) {slot : Slot}
    {act : Machine → LeaseId → Machine}
    (hact : ∀ id, m.slots[slot]? = some id →
      Deed setting m (act { m with stack := .body todo current :: rest } id)) :
    Deed setting m
      (({ m with stack := .body todo current :: rest } : Machine).withSlot slot act) := by
  simp only [withSlot]
  split
  · exact .pass [.missing slot] hs rfl rfl rfl (by simp [Event.isCalm])
  · exact hact _ ‹_›

theorem reserve_deed (h : m.Sound setting.policy) (hs : m.stack = .body (action :: todo) current :: rest)
    (number : Int) (slot : Option Slot) :
    Deed setting m (({ m with stack := .body todo current :: rest } : Machine).reserve
      setting.policy number slot) := by
  simp only [reserve]
  cases hr : m.pool.reserve setting.policy number with
  | error refusal => exact .pass [] hs rfl rfl rfl (by simp)
  | ok result =>
    obtain ⟨lease, pool, record⟩ := result
    have hg := Pool.reserve_grants h.pool hr
    cases lease with
    | none =>
      exact .exhaust [.granted number none, .log record] hs rfl rfl rfl hg (by simp [Event.isCalm])
    | some id =>
      exact .grant [.granted number (some id), .log record] hs rfl rfl rfl hg (.refl _)
        (by simp [Event.isCalm])

theorem reserveAny_deed (h : m.Sound setting.policy)
    (hs : m.stack = .body (action :: todo) current :: rest) (slot : Option Slot) :
    Deed setting m (({ m with stack := .body todo current :: rest } : Machine).reserveAny
      setting slot) := by
  have hg : Grants setting.policy m.pool
      (m.course.reserveAny setting.policy setting.world).2.pool _ :=
    Pool.reserveAny_grants (.refl h.pool)
  rw [List.append_nil] at hg
  simp only [reserveAny, join_eq]
  rw [show ({ m with stack := .body todo current :: rest } : Machine).course = m.course from rfl]
  generalize m.course.reserveAny setting.policy setting.world = result at hg ⊢
  obtain ⟨outcome, course⟩ := result
  cases outcome with
  | error e =>
    exact .exhaust (course.log.map Event.log) hs rfl rfl rfl hg (isCalm_logs _)
  | ok id =>
    obtain ⟨-, port, hl⟩ := hg.granted id (List.mem_singleton_self id)
    simp only [hl]
    refine .grant (.grantedAny port id _ :: course.log.map Event.log) hs rfl rfl rfl hg (.refl _) ?_
    exact List.forall_mem_cons.mpr ⟨rfl, isCalm_logs _⟩

theorem map_snd_ports {ids : List LeaseId} (hids : ∀ id ∈ ids, ∃ l, m.pool.lease? id = some l) :
    (m.ports ids).map Prod.snd = ids := by
  induction ids with
  | nil => rfl
  | cons id ids ih =>
    obtain ⟨l, hl⟩ := hids id List.mem_cons_self
    simp only [ports, List.filterMap_cons, hl, Option.map_some, List.map_cons]
    rw [← ports, ih fun id hid => hids id (List.mem_cons_of_mem _ hid)]

theorem map_snd_batchSlots (slot : Option Slot) (ids : List LeaseId) :
    (batchSlots slot ids).map Prod.snd = ids := by
  simp only [batchSlots, List.map_map, Function.comp_def]
  exact List.zipIdx_map_fst 0 ids

theorem reserveMany_deed (h : m.Sound setting.policy)
    (hs : m.stack = .body (action :: todo) current :: rest) (count : Int) (slot : Option Slot) :
    Deed setting m (({ m with stack := .body todo current :: rest } : Machine).reserveMany
      setting count slot) := by
  simp only [reserveMany]
  split
  · exact .pass [] hs rfl rfl rfl (by simp)
  · rename_i left _
    have hg : Grants setting.policy m.pool
        (m.course.reserveMore setting.policy setting.world left []).2.pool _ :=
      Pool.reserveMore_grants left (.refl h.pool)
    simp only [join_eq]
    rw [show ({ m with stack := .body todo current :: rest } : Machine).course = m.course from rfl]
    generalize m.course.reserveMore setting.policy setting.world left [] = result at hg ⊢
    obtain ⟨outcome, course⟩ := result
    cases outcome with
    | error e => exact .exhaust (course.log.map Event.log) hs rfl rfl rfl hg (isCalm_logs _)
    | ok ids =>
      refine .grant (.grantedMany _ :: course.log.map Event.log) hs rfl rfl rfl hg ?_
        (List.forall_mem_cons.mpr ⟨rfl, isCalm_logs _⟩)
      rw [map_snd_batchSlots]
      refine ((List.mergeSort_perm _ _).map Prod.snd).trans ?_
      rw [map_snd_ports]
      · rfl
      · intro id hid
        obtain ⟨-, port, hl⟩ := hg.granted id hid
        exact ⟨_, hl⟩

theorem find_deed (hs : m.stack = .body (action :: todo) current :: rest) (number : Int)
    (slot : Option Slot) :
    Deed setting m (({ m with stack := .body todo current :: rest } : Machine).find number slot) := by
  simp only [find]
  split
  · exact .pass [.found _] hs rfl rfl rfl (by simp [Event.isCalm])
  · rename_i id hfound
    obtain ⟨port, -, hcurrent⟩ := Pool.find?_eq_some_iff.mp hfound
    obtain ⟨-, hany⟩ := Option.filter_eq_some_iff.mp hcurrent
    cases hl : m.pool.lease? id with
    | none => simp [hl] at hany
    | some l => exact .share [.found _] hs rfl rfl rfl hl (by simp [Event.isCalm])

theorem drop_deed (h : m.Sound setting.policy) (hs : m.stack = .body (action :: todo) current :: rest)
    {slot : Slot} (hslot : m.slots[slot]? = some id) :
    Deed setting m
      (({ m with slots := m.slots.erase slot, stack := .body todo current :: rest } : Machine).letGo
        id) := by
  refine letGo_deed h hs rfl rfl rfl fun x => ?_
  have hcard := @card_slotsOf_erase id x slot m.slots hslot
  simp only [Frame.refs]
  omega

theorem perform_deed (h : m.Sound setting.policy)
    (hs : m.stack = .body (action :: todo) current :: rest) :
    Deed setting m (({ m with stack := .body todo current :: rest } : Machine).perform
      setting current action) := by
  have hquiet : Deed setting m { m with stack := .body todo current :: rest } :=
    .pass [] hs rfl rfl rfl (by simp)
  cases action with
  | reserve number slot => exact reserve_deed h hs number slot
  | reserveAny slot => exact reserveAny_deed h hs slot
  | reserveMany count slot => exact reserveMany_deed h hs count slot
  | find number slot => exact find_deed hs number slot
  | clone slot into =>
    simp only [perform]
    refine withSlot_deed hs ?_
    exact fun id hslot => share_deed h hs (references_slot hslot) into
  | keep slot =>
    cases current with
    | none => exact hquiet
    | some id => exact share_deed h hs (references_frame hs (by simp [Frame.refs])) slot
  | drop slot =>
    simp only [perform]
    refine withSlot_deed hs ?_
    exact fun id hslot => drop_deed h hs hslot
  | close slot verify =>
    simp only [perform]
    refine withSlot_deed hs ?_
    exact fun id hslot => close_deed h hs (.slot hs hslot)
  | closeCurrent verify =>
    cases current with
    | none => exact hquiet
    | some id => exact close_deed h hs (.current hs)
  | onClose slot name body =>
    simp only [perform]
    refine withSlot_deed hs ?_
    exact fun id hslot => onClose_deed h hs hslot
  | fail failure => exact .pass [] hs rfl rfl rfl (by simp)

end Actions

theorem step_deed (h : m.Sound setting.policy) : Deed setting m (m.step setting) := by
  unfold step
  split
  · exact .idle ‹_›
  · rename_i frame rest hs
    split
    · exact .pass [] hs rfl rfl rfl (by simp)
    · exact perform_deed h hs
    · refine letGo_deed h hs rfl rfl rfl fun x => ?_
      simp only [Frame.refs, Option.toList_none, Option.toList_some, List.count_nil]
      omega
    · exact endBody_deed hs
    · exact finishHooks_deed hs
    · exact startHook_deed hs
    · exact check_deed hs _ _
    · exact .handedOver hs
    · exact store_deed h hs

end Machine

end PortLease.Script
