import PortLease.Proofs.Threads.Hooks.Change

namespace PortLease.Threads.Hooks

open Script (Hook Failure hooksOf)

variable {policy : Policy} {failure : Option Failure} {pool : Pool Hook} {n : Nat}
  {s s' : State n} {t u : Fin n} {call : Call} {o : Outcome} {id : LeaseId} {left : List Nat}
  {failures : List String}

/-- The thread has ended the lease, and has run all the hooks added before, newest first, but for those
that are left. The failures are theirs. -/
def Served (s : State n) (t : Fin n) (id : LeaseId) (left : List Nat) (failures : List String) :
    Prop :=
  ∃ after before done outcomes, s.trace = after ++ (t, .ended id) :: before ∧
    added id s.trace = added id before ∧ added id before = done ++ left ∧
    List.Forall₂ (fun hook outcome => ∃ current, (t, .ran id hook current outcome) ∈ s.trace)
      done outcomes ∧
    failures = outcomes.filterMap (Option.map Failure.text)

theorem Served.ended (h : Served s t id left failures) : id ∈ s.own t Note.ended? := by
  obtain ⟨after, before, -, -, htrace, -⟩ := h
  rw [State.own, htrace]
  apply List.mem_filterMap.mpr
  exact ⟨(t, .ended id), List.mem_append_right _ List.mem_cons_self, if_pos rfl⟩

theorem Served.grow (h : Served s t id left failures) (hends : Ends s) (hchange : Change s s') :
    Served s' t id left failures := by
  obtain ⟨-, events, htrace', hsame⟩ := hchange.over ((hends.ended id).mpr ⟨t, h.ended⟩)
  obtain ⟨after, before, done, outcomes, htrace, hadded, hdone, hran, hfailures⟩ := h
  have hgrown {event : Fin n × Note} (he : event ∈ s.trace) : event ∈ s'.trace := by
    rw [htrace']
    exact List.mem_append_right _ he
  refine ⟨events ++ after, before, done, outcomes, ?_, hsame.trans hadded, hdone, ?_, hfailures⟩
  · rw [htrace', htrace, List.append_assoc]
  · exact hran.imp fun hook outcome ⟨current, he⟩ => ⟨current, hgrown he⟩

theorem Served.ran {hook : Nat} {current : Option LeaseId} (h : Served s t id (hook :: left) failures)
    (hran : (t, .ran id hook current failure) ∈ s.trace) :
    Served s t id left (failures ++ (failure.map Failure.text).toList) := by
  obtain ⟨after, before, done, outcomes, htrace, hadded, hdone, hall, rfl⟩ := h
  refine ⟨after, before, done ++ [hook], outcomes ++ [failure], htrace, hadded, ?_, ?_, ?_⟩
  · rw [hdone, List.append_assoc]
    rfl
  · exact List.rel_append hall (.cons ⟨current, hran⟩ .nil)
  · cases failure <;> simp

structure Serving (s : State n) : Prop where
  rounds : ∀ t round, (s.calls t).round? = some round → round.ended ≠ [] →
    Served s t round.lease ((s.calls t).waiting.map Prod.snd) round.failures
  returned : ∀ t id result, (t, .returned id true result) ∈ s.trace → ∃ port failures,
    (id, port) ∈ s.all Note.claimed? ∧ Served s t id [] failures ∧
      result = closeResult port failures
  spared : ∀ t id result, (t, .returned id false result) ∈ s.trace → result = .ok () ∧ Over s.pool id

theorem map_labelled (id : LeaseId) (hooks : List Hook) :
    (labelled id hooks).map Prod.snd = hooks.map Hook.number := by
  rw [labelled, List.map_map]
  rfl

theorem Serving.round (h : Serving s) (hw : Waiting s) (hends : Ends s)
    (hchange : Change s (s.after t o)) (hact : Act policy failure s.pool call o)
    (hcall : s.calls t = call) {round : Round} (hround : o.call.round? = some round)
    (hended : round.ended ≠ []) :
    Served (s.after t o) t round.lease (o.call.waiting.map Prod.snd) round.failures := by
  have hold := h.rounds t
  rw [hcall] at hold
  cases hact with
  | @ended id l verify hl hheld =>
    obtain rfl := Option.some.inj hround
    have hadded := hw.held id (not_over hl hheld)
    rw [hooksOf_eq hl] at hadded
    refine ⟨[], s.trace, [], [], rfl, rfl, ?_, .nil, rfl⟩
    rw [List.nil_append, ← hadded, ← map_labelled id]
    rfl
  | released round' =>
    obtain rfl := Option.some.inj hround
    exact (hold _ rfl hended).grow hends hchange
  | @looked round' hook todo htodo =>
    obtain rfl := Option.some.inj hround
    have hserved := (hold round' rfl hended).grow hends hchange
    simpa [Call.waiting, Call.round?, Round.waiting, labelled, htodo] using hserved
  | @queried round' htodo =>
    obtain rfl := Option.some.inj hround
    have hserved := (hold round' rfl hended).grow hends hchange
    simpa [Call.waiting, Call.round?, Round.waiting, labelled, htodo] using hserved
  | ran round' hook current =>
    rw [Round.round?_back] at hround
    obtain rfl := Option.some.inj hround
    have hserved := (hold round' rfl hended).grow hends hchange
    have he : (t, .ran round'.lease hook.number current failure) ∈ (s.after t
        ⟨s.pool, (round'.ran failure).back current, [],
          some (.ran round'.lease hook.number current failure)⟩).trace := List.mem_cons_self
    cases current <;> exact hserved.ran he
  | ending round' other =>
    obtain rfl := Option.some.inj hround
    exact (hold _ rfl hended).grow hends hchange
  | late port hook hover =>
    obtain rfl := Option.some.inj hround
    exact absurd rfl hended
  | _ => cases hround

theorem Serving.after (h : Serving s) (hends : Ends s) (hchange : Change s (s.after t o))
    (hround : ∀ round, o.call.round? = some round → round.ended ≠ [] →
      Served (s.after t o) t round.lease (o.call.waiting.map Prod.snd) round.failures)
    (hreturned : ∀ id result, o.note = some (.returned id true result) → ∃ port failures,
      (id, port) ∈ s.all Note.claimed? ∧ Served s t id [] failures ∧
        result = closeResult port failures)
    (hspared : ∀ id result, o.note = some (.returned id false result) →
      result = .ok () ∧ Over s.pool id) :
    Serving (s.after t o) := by
  have hnew {u : Fin n} {note : Note} (he : (u, note) ∈ (s.after t o).trace) :
      u = t ∧ o.note = some note ∨ (u, note) ∈ s.trace := by
    obtain he | he := List.mem_append.mp he
    · obtain ⟨note', hnote, heq⟩ := Option.map_eq_some_iff.mp (Option.mem_toList.mp he)
      cases heq
      exact .inl ⟨rfl, hnote⟩
    · exact .inr he
  constructor
  · intro u round hr hended
    by_cases hu : u = t
    · subst hu
      simp only [State.after, Function.update_self] at hr ⊢
      exact hround round hr hended
    · simp only [State.after, Function.update_of_ne hu] at hr ⊢
      exact (h.rounds u round hr hended).grow hends hchange
  · intro u id result he
    obtain ⟨rfl, hnote⟩ | he := hnew he
    · obtain ⟨port, failures, hport, hserved, hresult⟩ := hreturned id result hnote
      exact ⟨port, failures, State.mem_all_after hport, hserved.grow hends hchange, hresult⟩
    · obtain ⟨port, failures, hport, hserved, hresult⟩ := h.returned u id result he
      exact ⟨port, failures, State.mem_all_after hport, hserved.grow hends hchange, hresult⟩
  · intro u id result he
    obtain ⟨-, hnote⟩ | he := hnew he
    · exact (hspared id result hnote).imp_right fun hover => (hchange.over hover).1
    · exact (h.spared u id result he).imp_right fun hover => (hchange.over hover).1

theorem Act.returned (hact : Act policy failure pool call o) {result : Except PortError Unit}
    (hnote : o.note = some (.returned id true result)) : ∃ round, call.round? = some round ∧
      call.waiting = [] ∧ round.lease = id ∧ round.ended ≠ [] ∧
        result = closeResult round.port round.failures := by
  cases hact with
  | @answered round htodo =>
    obtain ⟨hended, hanswer⟩ | ⟨-, records, hanswer⟩ := round.answer_eq
    · rw [hanswer] at hnote
      cases hnote
      refine ⟨round, rfl, ?_, rfl, by rw [hended]; exact nofun, rfl⟩
      simp [Call.waiting, Call.round?, Round.waiting, labelled, htodo]
    · rw [hanswer] at hnote
      cases hnote
  | checked round =>
    obtain ⟨hended, hanswer⟩ | ⟨-, records, hanswer⟩ := round.answer_eq
    · rw [hanswer] at hnote
      cases hnote
      exact ⟨round, rfl, rfl, rfl, by rw [hended]; exact nofun, rfl⟩
    · rw [hanswer] at hnote
      cases hnote
  | _ => cases hnote

theorem Act.spared (hact : Act policy failure pool call o) {result : Except PortError Unit}
    (hnote : o.note = some (.returned id false result)) : result = .ok () ∧
      (∃ verify, call = .close id verify) ∧ ∀ l, pool.lease? id = some l → l.state ≠ .held := by
  cases hact with
  | settled verify hover =>
    cases hnote
    exact ⟨rfl, ⟨verify, rfl⟩, hover⟩
  | @answered round _ | checked round =>
    obtain ⟨-, hanswer⟩ | ⟨-, records, hanswer⟩ := round.answer_eq <;> rw [hanswer] at hnote <;>
      cases hnote
  | _ => cases hnote

theorem Reachable.serving (h : Reachable policy s) : Serving s := by
  induction h with
  | refl => exact ⟨nofun, nofun, nofun⟩
  | @tail s _ hs hmove ih =>
    have hchange := Reachable.change hs hmove
    have hends : Ends s := Reachable.ends hs
    cases hmove with
    | begin hidle hopens => cases hopens <;> exact ih.after hends hchange nofun nofun nofun
    | step t failure =>
      have hact := Call.act policy failure s.pool (s.calls t)
      apply ih.after hends hchange
      · intro round hround hended
        exact ih.round (Reachable.waiting hs) hends hchange hact rfl hround hended
      · intro id result hnote
        obtain ⟨round, hround, hnone, rfl, hended, hresult⟩ := hact.returned hnote
        obtain ⟨base, -, hplain⟩ := Reachable.plain hs
        have hserved := ih.rounds t round hround hended
        rw [hnone] at hserved
        exact ⟨round.port, round.failures, hplain.places t _ (Call.mem_places hround), hserved,
          hresult⟩
      · intro id result hnote
        obtain ⟨hresult, ⟨verify, hcall⟩, hover⟩ := hact.spared hnote
        obtain ⟨l, hl⟩ := Reachable.inHand hs (Reachable.closer hs hcall)
        exact ⟨hresult, over_of hl (hover l hl)⟩
    | clone hid =>
      constructor
      · intro t round hround hended
        exact (ih.rounds t round hround hended).grow hends hchange
      · intro t id result he
        obtain ⟨port, failures, hport, hserved, hresult⟩ := ih.returned t id result he
        exact ⟨port, failures, hport, hserved.grow hends hchange, hresult⟩
      · intro t id result he
        exact (ih.spared t id result he).imp_right fun hover => (hchange.over hover).1

theorem mem_added {hook : Nat} : hook ∈ added id s.trace ↔ (id, hook) ∈ s.all Note.registered? := by
  simp only [added, State.all, List.mem_filterMap]
  constructor
  · rintro ⟨event, he, heq⟩
    obtain ⟨⟨x, k⟩, hregistered, hk⟩ := Option.bind_eq_some_iff.mp heq
    simp only [Option.ite_none_right_eq_some, Option.some.injEq] at hk
    obtain ⟨rfl, rfl⟩ := hk
    exact ⟨event, he, hregistered⟩
  · rintro ⟨event, he, heq⟩
    exact ⟨event, he, by simp [heq]⟩

theorem count_placed (s : State n) (x : LeaseId × Nat) : (s.all Note.placed?).count x =
    (s.all Note.registered?).count x + (s.all Note.late?).count x := by
  unfold State.all
  induction s.trace with
  | nil => rfl
  | cons event trace ih =>
    have hnote : event.2.placed?.toList.count x =
        event.2.registered?.toList.count x + event.2.late?.toList.count x := by
      cases event.2 <;> simp [Note.placed?, Note.registered?, Note.late?]
    simp only [filterMap_cons_toList, List.count_append, ih, hnote]
    omega

theorem Reachable.passed_count (h : Reachable policy s) (x : LeaseId × Nat) :
    (s.all Note.passed?).count x ≤ 1 := by
  have hnodup : (s.all Note.passed?).Nodup := by
    apply List.Nodup.of_map Prod.snd
    exact h.numbered.descending.imp fun hlt => (Nat.ne_of_lt hlt).symm
  exact List.nodup_iff_count_le_one.mp hnodup x

theorem Reachable.ran_count (h : Reachable policy s) (x : LeaseId × Nat) :
    (s.all Note.ran?).count x ≤ 1 := by
  have hpassed := h.passed_count x
  have hconserved := h.conserved x
  omega

theorem Reachable.late_not_added (h : Reachable policy s) {hook : Nat}
    (hlate : (id, hook) ∈ s.all Note.late?) : hook ∉ added id s.trace := by
  intro hadded
  have hregistered := List.count_pos_iff.mpr (mem_added.mp hadded)
  have hlate := List.count_pos_iff.mpr hlate
  have hpassed := h.passed_count (id, hook)
  have htotal := passing_account.total h (id, hook)
  have hplaced := count_placed s (id, hook)
  omega

theorem Reachable.ran_once (h : Reachable policy s) (hidle : ∀ t, s.calls t = .idle)
    (hover : Over s.pool id) {hook : Nat} (hpassed : (id, hook) ∈ s.all Note.passed?) :
    (s.all Note.ran?).count (id, hook) = 1 := by
  have hone := h.passed_count (id, hook)
  have hpos := List.count_pos_iff.mpr hpassed
  have hconserved := h.conserved (id, hook)
  have hstored : stored s.pool id = [] := by
    rw [stored, h.waiting.none id hover]
    rfl
  have hcarried : ∑ t, (s.calls t).waiting.count (id, hook) = 0 :=
    Finset.sum_eq_zero fun t _ => by rw [hidle t]; rfl
  rw [hstored, hcarried, List.count_nil] at hconserved
  omega

theorem Reachable.passed_of_ran (h : Reachable policy s) {x : LeaseId × Nat}
    (hx : x ∈ s.all Note.ran?) : x ∈ s.all Note.passed? := by
  have hpos := List.count_pos_iff.mpr hx
  have hconserved := h.conserved x
  apply List.count_pos_iff.mp
  omega

theorem Reachable.numbers_inj (h : Reachable policy s) {x y : LeaseId × Nat}
    (hx : x ∈ s.all Note.passed?) (hy : y ∈ s.all Note.passed?) (heq : x.2 = y.2) : x = y := by
  have hnodup : ((s.all Note.passed?).map Prod.snd).Nodup :=
    h.numbered.descending.imp fun hlt => (Nat.ne_of_lt hlt).symm
  exact List.inj_on_of_nodup_map hnodup hx hy heq

theorem Reachable.released_once (h : Reachable policy s) (hid : id ∈ s.own t Note.released?) :
    (s.own t Note.released?).count id = 1 ∧ ∀ u, id ∈ s.own u Note.ended? ↔ u = t := by
  have hpos := List.count_pos_iff.mpr hid
  have hbalance := releases_account.balance h t id
  have honce := h.ends.once t id
  have hended : id ∈ s.own t Note.ended? := List.count_pos_iff.mp (by omega)
  refine ⟨by omega, fun u => ⟨fun hu => h.ends.one u t id hu hended, ?_⟩⟩
  rintro rfl
  exact hended

theorem mem_returned (hid : id ∈ s.own t Note.returned?) :
    ∃ released result, (t, .returned id released result) ∈ s.trace := by
  obtain ⟨⟨u, note⟩, he, heq⟩ := List.mem_filterMap.mp hid
  simp only [Option.ite_none_right_eq_some] at heq
  obtain ⟨rfl, heq⟩ := heq
  cases note with
  | returned x released result =>
    cases heq
    exact ⟨released, result, he⟩
  | _ => cases heq

theorem Reachable.closed_once (h : Reachable policy s) (hidle : ∀ t, s.calls t = .idle)
    (hid : id ∈ s.own t Note.closing?) : ∃ u, ∀ v,
      (s.own v Note.released?).count id = (if v = u then 1 else 0) ∧
      (s.own v Note.performed?).count id = (if v = u then 1 else 0) ∧
      (s.own v Note.returned?).count id = (s.own v Note.closing?).count id := by
  have hover : Over s.pool id := by
    have hclosing := List.count_pos_iff.mpr hid
    rw [closes_account.idle_balance h (hidle t)] at hclosing
    obtain ⟨released, result, hreturned⟩ := mem_returned (List.count_pos_iff.mp hclosing)
    cases released with
    | false => exact (h.serving.spared t id result hreturned).2
    | true =>
      obtain ⟨_, _, _, hserved, _⟩ := h.serving.returned t id result hreturned
      exact (h.ends.ended id).mpr ⟨t, hserved.ended⟩
  obtain ⟨u, hu⟩ := (h.ends.ended id).mp hover
  refine ⟨u, fun v => ?_⟩
  have hended : (s.own v Note.ended?).count id = if v = u then 1 else 0 := by
    split
    · rename_i hv
      subst hv
      have hpos := List.count_pos_iff.mpr hu
      have honce := h.ends.once v id
      omega
    · rename_i hv
      apply List.count_eq_zero_of_not_mem
      exact fun hmem => hv (h.ends.one v u id hmem hu)
  rw [← releases_account.idle_balance h (hidle v), ← ended_account.idle_balance h (hidle v),
    closes_account.idle_balance h (hidle v)]
  exact ⟨hended, hended, rfl⟩

theorem Reachable.placed (h : Reachable policy s) (hidle : ∀ t, s.calls t = .idle) {hook : Nat}
    (hpassed : (id, hook) ∈ s.all Note.passed?) :
    hook ∈ added id s.trace ∨ (id, hook) ∈ s.all Note.late? := by
  have hpos := List.count_pos_iff.mpr hpassed
  have htotal := passing_account.total h (id, hook)
  have hcarried : ∑ t, (s.calls t).passing.count (id, hook) = 0 :=
    Finset.sum_eq_zero fun t _ => by rw [hidle t]; rfl
  have hplaced := count_placed s (id, hook)
  by_cases hlate : (id, hook) ∈ s.all Note.late?
  · exact .inr hlate
  · have hnone := List.count_eq_zero_of_not_mem hlate
    exact .inl (mem_added.mpr (List.count_pos_iff.mp (by omega)))

structure HooksOnce (policy : Policy) (s : State n) : Prop where
  released : ∀ t id, id ∈ s.own t Note.released? →
    (s.own t Note.released?).count id = 1 ∧ ∀ u, id ∈ s.own u Note.ended? ↔ u = t
  spared : ∀ failure t id verify, s.calls t = .close id verify → Over s.pool id →
    s.step policy failure t = { s with
      calls := Function.update s.calls t .idle,
      trace := (t, .returned id false (.ok ())) :: s.trace }
  ok : ∀ t id result, (t, .returned id false result) ∈ s.trace → result = .ok ()
  closed : (∀ t, s.calls t = .idle) → ∀ t id, id ∈ s.own t Note.closing? → ∃ u, ∀ v,
    (s.own v Note.released?).count id = (if v = u then 1 else 0) ∧
    (s.own v Note.performed?).count id = (if v = u then 1 else 0) ∧
    (s.own v Note.returned?).count id = (s.own v Note.closing?).count id
  once : ∀ id hook, (s.all Note.ran?).count (id, hook) ≤ 1 ∧
    ((id, hook) ∈ s.all Note.ran? → ∀ x, (x, hook) ∈ s.all Note.ran? → x = id)
  ran : (∀ t, s.calls t = .idle) → ∀ id, Over s.pool id → ∀ hook,
    (id, hook) ∈ s.all Note.passed? → (s.all Note.ran?).count (id, hook) = 1 ∧
      (hook ∈ added id s.trace ∨ (id, hook) ∈ s.all Note.late?)
  result : ∀ t id result, (t, .returned id true result) ∈ s.trace →
    ∃ after before port outcomes, s.trace = after ++ (t, .ended id) :: before ∧
      added id s.trace = added id before ∧ (id, port) ∈ s.all Note.claimed? ∧
      List.Forall₂ (fun hook outcome => ∃ current, (t, .ran id hook current outcome) ∈ s.trace)
        (added id before) outcomes ∧
      result = closeResult port (outcomes.filterMap (Option.map Failure.text))
  late : ∀ id hook, (id, hook) ∈ s.all Note.late? → hook ∉ added id s.trace

theorem hooks_run_once (h : Reachable policy s) : HooksOnce policy s where
  released t id := h.released_once
  spared failure t id verify hcall hover := by
    obtain ⟨p, state, hstate, hterms⟩ := hover
    have hsettled (l : Lease Hook) (hl : s.pool.lease? id = some l) : l.state ≠ .held := by
      rw [terms_eq hl] at hterms
      cases hterms
      exact hstate
    rw [State.step, hcall, Call.step, Pool.finish_settled hsettled]
    rfl
  ok t id result he := (h.serving.spared t id result he).1
  closed hidle t id := h.closed_once hidle
  once id hook := by
    refine ⟨h.ran_count (id, hook), fun hx x hy => ?_⟩
    have heq := h.numbers_inj (h.passed_of_ran hx) (h.passed_of_ran hy) rfl
    exact (congrArg Prod.fst heq).symm
  ran hidle id hover hook hpassed := ⟨h.ran_once hidle hover hpassed, h.placed hidle hpassed⟩
  result t id result he := by
    obtain ⟨port, failures, hport, hserved, rfl⟩ := h.serving.returned t id result he
    obtain ⟨after, before, done, outcomes, htrace, hadded, hdone, hran, rfl⟩ := hserved
    rw [List.append_nil] at hdone
    exact ⟨after, before, port, outcomes, htrace, hadded, hport, hdone ▸ hran, rfl⟩
  late id hook := h.late_not_added

def overtaken (policy : Policy) (t u : Fin n) : State n :=
  let s := (({} : State n).begin t (.reserve 8080) none).step policy none t
  let s := (s.begin t (.onClose 1 8080 ⟨s.trace.length, "first", []⟩)
    (some (.passed 1 s.trace.length))).step policy none t
  let s := (s.begin t (.close 1 true) (some (.closing 1))).step policy none t
  let s := (s.begin u (.onClose 1 8080 ⟨s.trace.length, "second", []⟩)
    (some (.passed 1 s.trace.length))).step policy none u
  s.step policy none u

theorem reachable_overtaken : Reachable ⟨⟨32768, 60999⟩, true, true⟩
    (overtaken ⟨⟨32768, 60999⟩, true, true⟩ (0 : Fin 2) 1) := by
  unfold overtaken
  refine Reachable.step (Reachable.step (Reachable.begin (Reachable.step (Reachable.begin
    (Reachable.step (Reachable.begin (Reachable.step (Reachable.begin .refl ?_ ?_) _ _) ?_ ?_) _ _)
      ?_ ?_) _ _) ?_ ?_) _ _) _ _
  · rfl
  · exact .reserve 8080
  · decide +kernel
  · exact .onClose (by decide +kernel) (by decide +kernel) "first" []
  · decide +kernel
  · exact .close (by decide +kernel) true
  · decide +kernel
  · exact .onClose (by decide +kernel) (by decide +kernel) "second" []

def raced (policy : Policy) (t u : Fin n) : State n :=
  let s := (((overtaken policy t u).step policy none u).step policy none u).step policy none u
  let s := (s.begin u (.close 1 false) (some (.closing 1))).step policy none u
  let s := (s.step policy none t).step policy none t
  ((s.step policy (some (.panic none)) t).step policy none t).step policy none t

theorem hooks_run_once_raced : ∃ s : State 2, Reachable ⟨⟨32768, 60999⟩, true, true⟩ s ∧
    (∀ t, s.calls t = .idle) ∧ s.all Note.ran? = [(1, 1), (1, 5)] ∧
    (1, .returned 1 false (.ok ())) ∈ s.trace ∧
    (0, .returned 1 true (closeResult 8080 [Failure.text (.panic none)])) ∈ s.trace ∧
    HooksOnce ⟨⟨32768, 60999⟩, true, true⟩ s := by
  have hreach : Reachable ⟨⟨32768, 60999⟩, true, true⟩
      (raced ⟨⟨32768, 60999⟩, true, true⟩ (0 : Fin 2) 1) := by
    unfold raced
    refine Reachable.step (Reachable.step (Reachable.step (Reachable.step (Reachable.step
      (Reachable.step (Reachable.begin (Reachable.step (Reachable.step (Reachable.step
        reachable_overtaken _ _) _ _) _ _) ?_ ?_) _ _) _ _) _ _) _ _) _ _) _ _
    · decide +kernel
    · exact .close (by decide +kernel) false
  exact ⟨_, hreach, by decide +kernel, by decide +kernel, by decide +kernel, by decide +kernel,
    hooks_run_once hreach⟩

end PortLease.Threads.Hooks
