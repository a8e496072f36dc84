import PortLease.Proofs.Threads.Holders
import PortLease.Proofs.Threads.Hooks.Act

/-!
Seen without their hooks, the threads are threads that share a pool: a section is a step of theirs, and
the run of a hook is none. So the books of a shared pool hold here as well.
-/

namespace PortLease.Threads.Hooks

open Script (Hook Failure terms holdersOf)
open Pool (nextId_lend nextId_update nextId_release)

variable {policy : Policy} {failure : Option Failure} {pool : Pool Hook} {n : Nat}
  {s s' : State n} {base : Threads.State n} {t : Fin n} {call : Call} {o : Outcome}

def Kept (s : State n) : Prop := ∀ id, 0 < id → id < s.pool.nextId → id ∈ s.hands

theorem Act.nextId (h : Act policy failure pool call o) : o.pool.nextId = pool.nextId ∨
    o.pool.nextId = pool.nextId + 1 ∧ o.given = [pool.nextId] := by
  cases h with
  | reserved hcheck hclaim => exact .inr ⟨nextId_lend, rfl⟩
  | found number hid => exact .inl (Quiet.retain _).nextId
  | ended verify hl hheld => exact .inl (nextId_update _)
  | registered port hook hl hheld => exact .inl (nextId_update _)
  | released round => exact .inl nextId_release
  | @looked round hook todo htodo =>
    left
    cases pool.current? round.port with
    | none => rfl
    | some id => exact (Quiet.retain id).nextId
  | ending round other => exact .inl (nextId_section pool (.drop other))
  | _ => exact .inl rfl

theorem Kept.after (h : Kept s) (hact : Act policy failure s.pool call o) : Kept (s.after t o) := by
  intro id hpos hlt
  simp only [State.after] at hlt ⊢
  obtain hsame | ⟨hnew, hgiven⟩ := hact.nextId
  · rw [hsame] at hlt
    exact List.mem_append_right _ (h id hpos hlt)
  · rw [hnew] at hlt
    rw [hgiven]
    obtain hold | rfl := Nat.lt_succ_iff_lt_or_eq.mp hlt
    · exact List.mem_append_right _ (h id hpos hold)
    · exact List.mem_append_left _ (List.mem_singleton_self _)

theorem Reachable.kept (h : Reachable policy s) : Kept s := by
  induction h with
  | refl =>
    intro id hpos hlt
    exact absurd hpos (Nat.not_lt.mpr (Nat.le_of_lt_succ hlt))
  | @tail s _ _ hmove ih =>
    cases hmove with
    | begin hidle hopens => exact ih
    | step t failure => exact ih.after (Call.act policy failure s.pool (s.calls t))
    | @clone id hid =>
      intro x hpos hlt
      simp only [State.clone, (Quiet.retain id).nextId] at hlt ⊢
      exact List.mem_cons_of_mem _ (ih x hpos hlt)

theorem Act.not_close (h : Act policy failure pool call o) (id : LeaseId) (verify : Bool) :
    o.call ≠ .close id verify := by
  cases h with
  | ran round hook current => cases current <;> exact nofun
  | _ => exact nofun

theorem Move.hands (h : Move policy s s') : s.hands ⊆ s'.hands := by
  cases h with
  | begin hidle hopens => exact List.Subset.refl _
  | step t failure => exact List.subset_append_right _ _
  | clone hid => exact List.subset_cons_self _ _

theorem Reachable.closer (h : Reachable policy s) {id : LeaseId} {verify : Bool}
    (hcall : s.calls t = .close id verify) : id ∈ s.hands := by
  apply h.calls (P := fun s call => call = .close id verify → id ∈ s.hands) _ _ _ _ t hcall
  · exact nofun
  · intro s s' call hs hmove hold hcall
    exact hmove.hands (hold hcall)
  · rintro s t call note hopens rfl
    cases hopens with
    | close hid => exact hid
  · intro s t failure hs hold hcall
    exact absurd hcall ((Call.act policy failure s.pool (s.calls t)).not_close id verify)

def Round.sections (round : Round) : List Section := round.todo.map fun _ => .current round.port

namespace Call

def plain : Call → Threads.Call
  | .idle | .find _ | .onClose .. => .idle
  | .reserve number => .reserve number
  | .close id _ => .close id
  | .release round => .run (.release round.lease round.port :: round.sections) .done
  | .next round => .run round.sections .done
  | .running round _ current => .run ((current.map Section.drop).toList ++ round.sections) .done
  | .ending round other => .run (.drop other :: round.sections) .done
  | .check _ => .run [] .done

def round? : Call → Option Round
  | .release round | .next round | .running round _ _ | .ending round _ | .check round => some round
  | _ => none

def places : Call → List (LeaseId × Port)
  | .onClose id port _ => [(id, port)]
  | call => (call.round?.map fun round => (round.lease, round.port)).toList

theorem mem_places {call : Call} {round : Round} (h : call.round? = some round) :
    (round.lease, round.port) ∈ call.places := by
  cases call <;> cases h <;> exact List.mem_singleton_self _

end Call

structure Plain (s : State n) (base : Threads.State n) : Prop where
  pool : base.pool = s.pool
  hands : base.hands = s.hands
  calls : ∀ t, base.calls t = (s.calls t).plain
  claims : base.claims = s.all Note.claimed?
  releases : base.releases = s.all Note.released?
  places : ∀ t, ∀ x ∈ (s.calls t).places, x ∈ s.all Note.claimed?

theorem Plain.empty : Plain ({} : State n) {} where
  pool := rfl
  hands := rfl
  calls _ := rfl
  claims := rfl
  releases := rfl
  places _ _ hx := absurd hx List.not_mem_nil

theorem Plain.lease (h : Plain s base) (hr : Threads.Reachable policy base) {id : LeaseId}
    {l : Lease Hook} (hl : s.pool.lease? id = some l) : (id, l.port) ∈ s.all Note.claimed? := by
  rw [← h.claims, hr.ledger.claims, h.pool]
  exact ⟨l.state, terms_eq hl⟩

theorem Plain.inHand (h : Plain s base) (hr : Threads.Reachable policy base) (hk : Kept s)
    {id : LeaseId} {port : Port} (hid : (id, port) ∈ s.all Note.claimed?) : id ∈ s.hands := by
  rw [← h.claims, hr.ledger.claims, h.pool] at hid
  obtain ⟨state, hterms⟩ := hid
  apply hk id _ (terms_lt hterms)
  apply Nat.pos_of_ne_zero
  rintro rfl
  simp [terms, Pool.lease?] at hterms

theorem Plain.after (h : Plain s base) {o' : Threads.Outcome} (hpool : o'.pool = o.pool)
    (hgiven : o'.given = o.given) (hcall : o'.call = o.call.plain)
    (hclaim : o'.note.bind Threads.Note.claim? = o.note.bind Note.claimed?)
    (hrelease : o'.note.bind Threads.Note.release? = o.note.bind Note.released?)
    (hplaces : ∀ x ∈ o.call.places, x ∈ (s.after t o).all Note.claimed?) :
    Plain (s.after t o) (base.after t o') := by
  have hlist {α β : Type} (note : Option α) (f : α → Option β) :
      note.toList.filterMap f = (note.bind f).toList := by
    cases note with
    | none => rfl
    | some x => cases hf : f x <;> simp [hf]
  constructor
  · exact hpool
  · simp only [State.after, Threads.State.after, hgiven, h.hands]
  · intro u
    simp only [State.after, Threads.State.after]
    by_cases hu : u = t
    · subst hu
      rw [Function.update_self, Function.update_self, hcall]
    · rw [Function.update_of_ne hu, Function.update_of_ne hu, h.calls]
  · rw [claims_after, hlist, hclaim, State.all_after, h.claims]
  · rw [releases_after, hlist, hrelease, State.all_after, h.releases]
  · intro u x hx
    by_cases hu : u = t
    · subst hu
      simp only [State.after, Function.update_self] at hx
      exact hplaces x hx
    · simp only [State.after, Function.update_of_ne hu] at hx
      exact State.mem_all_after (h.places u x hx)

theorem Plain.silent (h : Plain s base) (hcall : (s.calls t).plain = o.call.plain)
    (hclaim : o.note.bind Note.claimed? = none) (hrelease : o.note.bind Note.released? = none)
    (hplaces : ∀ x ∈ o.call.places, x ∈ (s.after t o).all Note.claimed?) :
    Plain (s.after t o) { base with pool := o.pool, hands := o.given ++ base.hands } := by
  have hafter : Plain (s.after t o) (base.after t ⟨o.pool, base.calls t, o.given, none⟩) :=
    h.after rfl rfl ((h.calls t).trans hcall) hclaim.symm hrelease.symm hplaces
  simpa [Threads.State.after] using hafter

theorem step_step {answers : Answers} {call next : Threads.Call} (hcall : base.calls t = call)
    (hstep : call.step policy answers base.pool = ⟨base.pool, next, [], none⟩) :
    (base.step policy answers t).step policy answers t =
      base.after t (next.step policy answers base.pool) := by
  rw [Threads.State.step, Threads.State.step, hcall, hstep]
  simp [Threads.State.after]

theorem Plain.step_call (h : Plain s base) (hr : Threads.Reachable policy base) (answers : Answers)
    (hcall : s.calls t = call) {o' : Threads.Outcome}
    (hstep : call.plain.step policy answers s.pool = o')
    (hpool : o'.pool = o.pool) (hgiven : o'.given = o.given) (hafter : o'.call = o.call.plain)
    (hclaim : o'.note.bind Threads.Note.claim? = o.note.bind Note.claimed?)
    (hrelease : o'.note.bind Threads.Note.release? = o.note.bind Note.released?)
    (hplaces : ∀ x ∈ o.call.places, x ∈ (s.after t o).all Note.claimed?) :
    ∃ base', Threads.Reachable policy base' ∧ Plain (s.after t o) base' := by
  have hmove : Threads.Reachable policy (base.step policy answers t) := hr.tail (.step t answers)
  rw [Threads.State.step, h.calls, hcall, h.pool, hstep] at hmove
  exact ⟨_, hmove, h.after hpool hgiven hafter hclaim hrelease hplaces⟩

theorem Plain.stutter (h : Plain s base) (hr : Threads.Reachable policy base)
    (hpool : o.pool = s.pool) (hgiven : o.given = []) (hcall : (s.calls t).plain = o.call.plain)
    (hclaim : o.note.bind Note.claimed? = none) (hrelease : o.note.bind Note.released? = none)
    (hplaces : ∀ x ∈ o.call.places, x ∈ (s.after t o).all Note.claimed?) :
    ∃ base', Threads.Reachable policy base' ∧ Plain (s.after t o) base' := by
  refine ⟨base, hr, ?_⟩
  have hsilent := h.silent hcall hclaim hrelease hplaces
  rwa [hpool, hgiven, ← h.pool] at hsilent

theorem Plain.answered (h : Plain s base) (hr : Threads.Reachable policy base) {round : Round}
    (hcall : s.calls t = call) (hdone : call.plain = .run [] .done) :
    ∃ base', Threads.Reachable policy base' ∧
      Plain (s.after t ⟨s.pool, .idle, [], some round.answer⟩) base' := by
  have hstep : call.plain.step policy ⟨Port.lowest, true⟩ s.pool = ⟨s.pool, .idle, [], none⟩ := by
    rw [hdone]
    rfl
  refine h.step_call hr _ hcall hstep rfl rfl rfl ?_ ?_ nofun <;>
    obtain ⟨-, hanswer⟩ | ⟨-, records, hanswer⟩ := round.answer_eq <;> rw [hanswer] <;> rfl

theorem Plain.letGo (h : Plain s base) (hr : Threads.Reachable policy base) (hk : Kept s)
    {round : Round} {other : LeaseId} (hcall : s.calls t = .ending round other) :
    s.pool.letGo other = (none, s.pool.update other Pool.lessHeld) := by
  have hheld := hr.held
  have hrefs : other ∈ (base.calls t).refs := by
    rw [h.calls, hcall]
    exact List.mem_append_left _ List.mem_cons_self
  obtain ⟨l, hl⟩ := exists_of_holders (hheld.carried hrefs)
  rw [h.pool] at hl
  have hhand := h.inHand hr hk (h.lease hr hl)
  rw [← h.hands] at hhand
  have hcount := hheld.count other
  rw [h.pool, holdersOf_eq hl] at hcount
  have hmine := List.count_pos_iff.mpr hrefs
  have hhands := List.count_pos_iff.mpr hhand
  have hle := refs_le base t other
  apply Pool.letGo_more hl
  omega

section Steps

variable {answers : Answers} {id : LeaseId} {l : Lease Hook}

theorem plain_refused {number : Int}
    (hnone : ∀ port, policy.check number = .ok port → pool.claim? port = none) :
    Threads.Call.step policy answers pool (.reserve number) = ⟨pool, .idle, [], none⟩ := by
  simp only [Threads.Call.step]
  split
  · rfl
  · rename_i port hcheck
    rw [hnone port hcheck]

theorem plain_reserved {number : Int} {port : Port} (hcheck : policy.check number = .ok port)
    (hclaim : pool.claim? port = some (pool.lend port)) :
    Threads.Call.step policy answers pool (.reserve number) =
      ⟨(pool.lend port).2, .idle, [pool.nextId], some (.claimed pool.nextId port)⟩ := by
  simp only [Threads.Call.step, hcheck, hclaim]
  rfl

theorem plain_settled (hover : ∀ l, pool.lease? id = some l → l.state ≠ .held) :
    Threads.Call.step policy answers pool (.close id) = ⟨pool, .run [] .done, [], none⟩ := by
  simp only [Threads.Call.close, Threads.Call.step, Section.pool, Section.next,
    Pool.finish_settled hover, afterEnd, List.nil_append]
  rfl

theorem plain_ended (hl : pool.lease? id = some l) (hheld : l.state = .held) :
    Threads.Call.step policy answers pool (.close id) =
      ⟨pool.update id (Pool.finished .closed), .run (afterEnd id (some l)) .done, [], none⟩ := by
  simp only [Threads.Call.close, Threads.Call.step, Section.pool, Section.next,
    Pool.finish_held hl hheld, List.append_nil]
  rfl

theorem plain_looked {round : Round} {hook : Hook} {todo : List Hook}
    (htodo : round.todo = hook :: todo) :
    Threads.Call.step policy answers pool (Call.plain (.next round)) =
      ⟨handed pool (pool.current? round.port), .run
        (((pool.current? round.port).map Section.drop).toList ++
          todo.map fun _ => .current round.port) .done, [], none⟩ := by
  simp only [Call.plain, Round.sections, htodo, List.map_cons, Threads.Call.step, Section.pool,
    Section.next]
  cases pool.current? round.port <;> rfl

theorem plain_letGo {round : Round} {other : LeaseId}
    (hgo : pool.letGo other = (none, pool.update other Pool.lessHeld)) :
    Threads.Call.step policy answers pool (Call.plain (.ending round other)) =
      ⟨(pool.letGo other).2, .run round.sections .done, [], none⟩ := by
  simp only [Call.plain, Threads.Call.step, Section.pool, Section.next, hgo]
  rfl

end Steps

theorem places_idle (x : LeaseId × Port) (hx : x ∈ Call.idle.places) : x ∈ s.all Note.claimed? :=
  absurd hx List.not_mem_nil

theorem Plain.step (h : Plain s base) (hr : Threads.Reachable policy base) (hk : Kept s)
    (hact : Act policy failure s.pool call o) (hcall : s.calls t = call) :
    ∃ base', Threads.Reachable policy base' ∧ Plain (s.after t o) base' := by
  let answers : Answers := ⟨Port.lowest, true⟩
  have hbase : base.calls t = call.plain := (h.calls t).trans (congrArg Call.plain hcall)
  have hknown {o' : Outcome} {x : LeaseId × Port} (hx : x ∈ call.places) :
      x ∈ (s.after t o').all Note.claimed? := State.mem_all_after (h.places t x (hcall ▸ hx))
  cases hact with
  | idle => exact h.stutter hr rfl rfl (hcall ▸ rfl) rfl rfl places_idle
  | @refused number hnone =>
    exact h.step_call hr answers hcall (plain_refused hnone) rfl rfl rfl rfl rfl places_idle
  | @reserved number port hcheck hclaim =>
    exact h.step_call hr answers hcall (plain_reserved hcheck hclaim) rfl rfl rfl rfl rfl places_idle
  | missed number => exact h.stutter hr rfl rfl (hcall ▸ rfl) rfl rfl places_idle
  | @found port id number hid =>
    obtain ⟨l, hl⟩ := exists_of_holders (current?_holders hid)
    have hhand := h.inHand hr hk (h.lease hr hl)
    have hsilent : Plain (s.after t ⟨s.pool.retain id, .idle, [id], none⟩)
        { base with pool := s.pool.retain id, hands := [id] ++ base.hands } :=
      h.silent (hcall ▸ rfl) rfl rfl places_idle
    rw [← h.pool] at hsilent
    exact ⟨base.clone id, hr.tail (.clone (h.hands ▸ hhand)), h.pool ▸ hsilent⟩
  | @settled id verify hover =>
    have htwice : Threads.Reachable policy _ := (hr.tail (.step t answers)).tail (.step t answers)
    rw [← h.pool] at hover
    rw [step_step hbase (plain_settled hover), h.pool] at htwice
    exact ⟨_, htwice, h.after rfl rfl rfl rfl rfl places_idle⟩
  | @ended id l verify hl hheld =>
    apply h.step_call hr answers hcall (plain_ended hl hheld) rfl rfl rfl rfl rfl
    intro x hx
    obtain rfl := List.mem_singleton.mp hx
    exact State.mem_all_after (h.lease hr hl)
  | @registered id l port hook hl hheld =>
    have hhand := h.inHand hr hk (h.lease hr hl)
    have hadd : base.onClose id hook = { base with
        pool := s.pool.update id fun l => { l with hooks := hook :: l.hooks },
        hands := [] ++ base.hands } := by
      rw [Threads.State.onClose, h.pool, Pool.addHook_held hl hheld]
      rfl
    refine ⟨base.onClose id hook, hr.tail (.onClose (h.hands ▸ hhand) hook), ?_⟩
    rw [hadd]
    exact h.silent (hcall ▸ rfl) rfl rfl places_idle
  | @late id port hook hover =>
    have hbegun : Plain (s.after t ⟨s.pool, .next ⟨id, port, .late, [hook], []⟩, [],
        some (.late id hook.number)⟩) (base.begin t (.lateHook port) base.hands) := by
      have hafter : Plain (s.after t ⟨s.pool, .next ⟨id, port, .late, [hook], []⟩, [],
          some (.late id hook.number)⟩)
          (base.after t ⟨base.pool, .lateHook port, [], some .began⟩) :=
        h.after h.pool rfl rfl rfl rfl fun x hx => hknown hx
      exact hafter
    exact ⟨_, hr.tail (.begin hbase (.lateHook port)), hbegun⟩
  | released round => exact h.step_call hr answers hcall rfl rfl rfl rfl rfl rfl fun x hx => hknown hx
  | @looked round hook todo htodo =>
    apply h.step_call hr answers hcall (plain_looked htodo) rfl rfl rfl rfl rfl
    exact fun x hx => hknown hx
  | @queried round htodo =>
    apply h.stutter hr rfl rfl _ rfl rfl fun x hx => hknown hx
    rw [hcall, Call.plain, Call.plain, Round.sections, htodo]
    rfl
  | @answered round htodo =>
    apply h.answered hr hcall
    rw [Call.plain, Round.sections, htodo]
    rfl
  | ran round hook current =>
    apply h.stutter hr rfl rfl _ rfl rfl
    · intro x hx
      cases current <;> exact hknown hx
    · rw [hcall]
      cases current <;> rfl
  | ending round other =>
    apply h.step_call hr answers hcall (plain_letGo (h.letGo hr hk hcall)) rfl rfl rfl rfl rfl
    exact fun x hx => hknown hx
  | checked round => exact h.answered hr hcall rfl

theorem Plain.begin (h : Plain s base) (hr : Threads.Reachable policy base) {note : Option Note}
    (hidle : s.calls t = .idle) (hopens : Opens s call note) :
    ∃ base', Threads.Reachable policy base' ∧ Plain (s.begin t call note) base' := by
  have hbase : base.calls t = .idle := by rw [h.calls, hidle]; rfl
  cases hopens with
  | reserve number =>
    have hafter : Plain (s.begin t (.reserve number) none)
        (base.after t ⟨base.pool, .reserve number, [], some .began⟩) :=
      h.after h.pool rfl rfl rfl rfl nofun
    exact ⟨_, hr.tail (.begin hbase (.reserve number)), hafter⟩
  | find number => exact h.stutter hr rfl rfl (hidle ▸ rfl) rfl rfl nofun
  | @close id hid verify =>
    have hafter : Plain (s.begin t (.close id verify) (some (.closing id)))
        (base.after t ⟨base.pool, .close id, [], some .began⟩) :=
      h.after h.pool rfl rfl rfl rfl nofun
    exact ⟨_, hr.tail (.begin hbase (.close (h.hands ▸ hid))), hafter⟩
  | @onClose id port hid hport name body =>
    apply h.stutter hr rfl rfl (hidle ▸ rfl) rfl rfl
    intro x hx
    obtain rfl := List.mem_singleton.mp hx
    obtain ⟨l, hl, rfl⟩ := Option.map_eq_some_iff.mp hport
    exact h.lease hr hl

theorem Reachable.plain (h : Reachable policy s) :
    ∃ base, Threads.Reachable policy base ∧ Plain s base := by
  induction h with
  | refl => exact ⟨{}, .refl, .empty⟩
  | @tail s _ hs hmove ih =>
    obtain ⟨base, hr, hplain⟩ := ih
    cases hmove with
    | begin hidle hopens => exact hplain.begin hr hidle hopens
    | step t failure =>
      exact hplain.step hr (Reachable.kept hs) (Call.act policy failure s.pool (s.calls t)) rfl
    | @clone id hid =>
      refine ⟨base.clone id, hr.tail (.clone (hplain.hands ▸ hid)), ?_⟩
      constructor
      · rw [Threads.State.clone, State.clone, hplain.pool]
      · rw [Threads.State.clone, State.clone, hplain.hands]
      · exact hplain.calls
      · exact hplain.claims
      · exact hplain.releases
      · exact hplain.places

theorem Reachable.inHand (h : Reachable policy s) {id : LeaseId} (hid : id ∈ s.hands) :
    ∃ l, s.pool.lease? id = some l := by
  obtain ⟨base, hr, hplain⟩ := h.plain
  rw [← hplain.hands] at hid
  rw [← hplain.pool]
  exact exists_of_holders (hr.held.inHand hid)

theorem Reachable.letGo (h : Reachable policy s) {round : Round} {other : LeaseId}
    (hcall : s.calls t = .ending round other) :
    s.pool.letGo other = (none, s.pool.update other Pool.lessHeld) := by
  obtain ⟨base, hr, hplain⟩ := h.plain
  exact hplain.letGo hr h.kept hcall

end PortLease.Threads.Hooks
