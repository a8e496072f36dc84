import PortLease.Proofs.Threads.Hooks.Account

namespace PortLease.Threads.Hooks

open Script (Hook Failure terms hooksOf terms_update hooksOf_update terms_release hooksOf_release)
open Pool (finished lessHeld)

variable {policy : Policy} {failure : Option Failure} {pool : Pool Hook} {n : Nat}
  {s s' : State n} {t u : Fin n} {call : Call} {o : Outcome} {id : LeaseId}

inductive Change (s s' : State n) : Prop
  | calm {events : List (Fin n × Note)} (hover : ∀ x, Over s'.pool x ↔ Over s.pool x)
      (hhooks : ∀ x, hooksOf s'.pool x = hooksOf s.pool x) (htrace : s'.trace = events ++ s.trace)
      (hcalm : ∀ event ∈ events, event.2.registered? = none ∧ event.2.ended? = none)
  | ends {t : Fin n} {id : LeaseId} {l : Lease Hook} (hl : s.pool.lease? id = some l)
      (hheld : l.state = .held) (hpool : s'.pool = s.pool.update id (finished .closed))
      (htrace : s'.trace = (t, .ended id) :: s.trace)
  | adds {t : Fin n} {id : LeaseId} {l : Lease Hook} {hook : Hook}
      (hl : s.pool.lease? id = some l) (hheld : l.state = .held)
      (hpool : s'.pool = s.pool.update id fun l => { l with hooks := hook :: l.hooks })
      (htrace : s'.trace = (t, .registered id hook.number) :: s.trace)

theorem lease?_empty (x : LeaseId) : (Pool.empty : Pool Hook).lease? x = none := by
  simp [Pool.lease?, Pool.empty]

theorem not_over_empty (x : LeaseId) : ¬ Over Pool.empty x := by
  rintro ⟨p, state, -, hterms⟩
  rw [terms, lease?_empty] at hterms
  cases hterms

theorem over_congr {pool pool' : Pool Hook} (h : ∀ x, terms pool' x = terms pool x) (x : LeaseId) :
    Over pool' x ↔ Over pool x := by
  rw [Over, Over, h]

theorem over_lend (port : Port) (x : LeaseId) : Over (pool.lend port).2 x ↔ Over pool x := by
  unfold Over
  rw [terms_lend]
  split
  · rename_i hx
    subst hx
    rw [terms_nextId]
    constructor
    · rintro ⟨p, state, hstate, heq⟩
      cases heq
      exact absurd rfl hstate
    · rintro ⟨p, state, -, heq⟩
      cases heq
  · exact Iff.rfl

theorem not_over {l : Lease Hook} (hl : pool.lease? id = some l) (hheld : l.state = .held) :
    ¬ Over pool id := by
  rintro ⟨p, state, hstate, hterms⟩
  rw [terms_eq hl] at hterms
  cases hterms
  exact hstate hheld

theorem over_of {l : Lease Hook} (hl : pool.lease? id = some l) (hover : l.state ≠ .held) :
    Over pool id := ⟨l.port, l.state, hover, terms_eq hl⟩

theorem over_ends {l : Lease Hook} (hl : pool.lease? id = some l) (x : LeaseId) :
    Over (pool.update id (finished .closed)) x ↔ x = id ∨ Over pool x := by
  unfold Over
  rw [terms_update hl]
  split
  · rename_i hx
    exact iff_of_true ⟨_, .closed, nofun, rfl⟩ (.inl hx)
  · rename_i hx
    exact (or_iff_right hx).symm

theorem Change.after (hover : ∀ x, Over o.pool x ↔ Over s.pool x)
    (hhooks : ∀ x, hooksOf o.pool x = hooksOf s.pool x)
    (hregistered : o.note.bind Note.registered? = none)
    (hended : o.note.bind Note.ended? = none) : Change s (s.after t o) := by
  apply Change.calm hover hhooks rfl
  intro event hevent
  obtain ⟨note, hnote, rfl⟩ := Option.map_eq_some_iff.mp (Option.mem_toList.mp hevent)
  rw [hnote] at hregistered hended
  exact ⟨hregistered, hended⟩

theorem Change.keeps (hterms : ∀ x, terms o.pool x = terms s.pool x)
    (hhooks : ∀ x, hooksOf o.pool x = hooksOf s.pool x)
    (hregistered : o.note.bind Note.registered? = none)
    (hended : o.note.bind Note.ended? = none) : Change s (s.after t o) :=
  .after (over_congr hterms) hhooks hregistered hended

theorem Act.change (hact : Act policy failure s.pool call o)
    (hletGo : ∀ round other, call = .ending round other →
      s.pool.letGo other = (none, s.pool.update other lessHeld)) : Change s (s.after t o) := by
  cases hact with
  | reserved hcheck hclaim => exact .after (over_lend _) hooksOf_lend rfl rfl
  | @found port id number hid =>
    exact .keeps (Quiet.retain id).terms Script.Keeps.retain.hooks rfl rfl
  | ended verify hl hheld => exact .ends hl hheld rfl rfl
  | registered port hook hl hheld => exact .adds hl hheld rfl rfl
  | released round => exact .keeps (terms_release _ _) (hooksOf_release _ _) rfl rfl
  | @looked round hook todo htodo =>
    cases hcurrent : s.pool.current? round.port with
    | none => exact .keeps (fun _ => rfl) (fun _ => rfl) rfl rfl
    | some id => exact .keeps (Quiet.retain id).terms Script.Keeps.retain.hooks rfl rfl
  | ending round other =>
    have hgo := hletGo round other rfl
    rw [hgo]
    have hquiet : Quiet s.pool (s.pool.update other lessHeld) := .update (fun _ => rfl) fun _ => rfl
    exact .keeps hquiet.terms (hooksOf_lessHeld other) rfl rfl
  | @answered round _ | checked round =>
    apply Change.keeps (fun _ => rfl) (fun _ => rfl) <;>
      obtain ⟨-, hanswer⟩ | ⟨-, records, hanswer⟩ := round.answer_eq <;> rw [hanswer] <;> rfl
  | _ => exact .keeps (fun _ => rfl) (fun _ => rfl) rfl rfl

theorem Reachable.change (h : Reachable policy s) (hmove : Move policy s s') : Change s s' := by
  cases hmove with
  | begin hidle hopens => cases hopens <;> exact .keeps (fun _ => rfl) (fun _ => rfl) rfl rfl
  | step t failure =>
    apply Act.change (Call.act policy failure s.pool (s.calls t))
    intro round other hcall
    exact h.letGo hcall
  | @clone id hid =>
    apply Change.calm (over_congr (Quiet.retain id).terms) Script.Keeps.retain.hooks
    · exact (List.nil_append _).symm
    · exact nofun

def added (id : LeaseId) (trace : List (Fin n × Note)) : List Nat :=
  trace.filterMap fun event => (event.2.registered?).bind fun (x, hook) =>
    if x = id then some hook else none

theorem added_calm {events : List (Fin n × Note)}
    (hcalm : ∀ event ∈ events, event.2.registered? = none) (trace : List (Fin n × Note)) :
    added id (events ++ trace) = added id trace := by
  rw [added, List.filterMap_append, List.filterMap_eq_nil_iff.mpr, List.nil_append, added]
  intro event hevent
  rw [hcalm event hevent]
  rfl

theorem Change.over (h : Change s s') (hid : Over s.pool id) : Over s'.pool id ∧
    ∃ events, s'.trace = events ++ s.trace ∧ added id s'.trace = added id s.trace := by
  cases h with
  | @calm events hover hhooks htrace hcalm =>
    refine ⟨(hover id).mpr hid, events, htrace, ?_⟩
    rw [htrace, added_calm fun event hevent => (hcalm event hevent).1]
  | @ends t x l hl hheld hpool htrace =>
    refine ⟨hpool ▸ (over_ends hl id).mpr (.inr hid), [(t, .ended x)], htrace, ?_⟩
    rw [htrace]
    rfl
  | @adds t x l hook hl hheld hpool htrace =>
    have hquiet : Quiet s.pool s'.pool := hpool ▸ .update (fun _ => rfl) fun _ => rfl
    refine ⟨(over_congr hquiet.terms id).mpr hid, [(t, .registered x hook.number)], htrace, ?_⟩
    have hne : x ≠ id := by
      rintro rfl
      exact not_over hl hheld hid
    simp [htrace, added, Note.registered?, hne]

structure Waiting (s : State n) : Prop where
  held : ∀ id, ¬ Over s.pool id → (hooksOf s.pool id).map Hook.number = added id s.trace
  none : ∀ id, Over s.pool id → hooksOf s.pool id = []

theorem Waiting.change (h : Waiting s) (hchange : Change s s') : Waiting s' := by
  cases hchange with
  | calm hover hhooks htrace hcalm =>
    constructor
    · intro id hid
      rw [hhooks, htrace, added_calm fun event hevent => (hcalm event hevent).1]
      exact h.held id (mt (hover id).mpr hid)
    · intro id hid
      rw [hhooks]
      exact h.none id ((hover id).mp hid)
  | @ends t id l hl hheld hpool htrace =>
    have hover := over_ends hl
    rw [← hpool] at hover
    constructor
    · intro x hx
      obtain ⟨hne, hx⟩ := not_or.mp (mt (hover x).mpr hx)
      rw [hpool, hooksOf_update hl, if_neg hne, htrace]
      exact h.held x hx
    · intro x hx
      rw [hpool, hooksOf_update hl]
      split
      · rfl
      · rename_i hne
        exact h.none x (((hover x).mp hx).resolve_left hne)
  | @adds t id l hook hl hheld hpool htrace =>
    have hquiet : Quiet s.pool s'.pool := hpool ▸ .update (fun _ => rfl) fun _ => rfl
    have hover := over_congr hquiet.terms
    constructor
    · intro x hx
      have hold := h.held x (mt (hover x).mpr hx)
      rw [hpool, hooksOf_update hl, htrace]
      by_cases hxid : x = id
      · subst hxid
        rw [hooksOf_eq hl] at hold
        simp [added, Note.registered?, hold]
      · simpa [added, Note.registered?, hxid, Ne.symm hxid] using hold
    · intro x hx
      have hx := (hover x).mp hx
      have hne : x ≠ id := by
        rintro rfl
        exact not_over hl hheld hx
      rw [hpool, hooksOf_update hl, if_neg hne]
      exact h.none x hx

theorem Waiting.empty : Waiting ({} : State n) where
  held x _ := by
    rw [hooksOf, lease?_empty]
    rfl
  none x hx := absurd hx (not_over_empty x)

theorem Reachable.waiting (h : Reachable policy s) : Waiting s := by
  induction h with
  | refl => exact .empty
  | tail hs hmove ih => exact ih.change (Reachable.change hs hmove)

structure Ends (s : State n) : Prop where
  ended : ∀ id, Over s.pool id ↔ ∃ t, id ∈ s.own t Note.ended?
  once : ∀ t id, (s.own t Note.ended?).count id ≤ 1
  one : ∀ t u id, id ∈ s.own t Note.ended? → id ∈ s.own u Note.ended? → t = u

theorem own_calm {β : Type} {f : Note → Option β} {events : List (Fin n × Note)}
    (htrace : s'.trace = events ++ s.trace) (hcalm : ∀ event ∈ events, f event.2 = none) (t : Fin n) :
    s'.own t f = s.own t f := by
  rw [State.own, htrace, List.filterMap_append, List.filterMap_eq_nil_iff.mpr, List.nil_append,
    State.own]
  intro event hevent
  rw [hcalm event hevent, ite_self]

theorem own_cons {β : Type} {f : Note → Option β} {note : Note}
    (htrace : s'.trace = (t, note) :: s.trace) (u : Fin n) :
    s'.own u f = if u = t then (f note).toList ++ s.own u f else s.own u f := by
  rw [State.own, htrace, State.own]
  by_cases hu : u = t
  · subst hu
    cases hf : f note <;> simp [hf]
  · simp [hu, Ne.symm hu]

theorem Ends.same (h : Ends s) (hover : ∀ x, Over s'.pool x ↔ Over s.pool x)
    (hended : ∀ t, s'.own t Note.ended? = s.own t Note.ended?) : Ends s' where
  ended x := by
    simp only [hover, hended]
    exact h.ended x
  once t x := by
    rw [hended]
    exact h.once t x
  one t u x := by
    rw [hended, hended]
    exact h.one t u x

theorem Ends.change (h : Ends s) (hchange : Change s s') : Ends s' := by
  cases hchange with
  | calm hover _ htrace hcalm =>
    exact h.same hover (own_calm htrace fun event hevent => (hcalm event hevent).2)
  | @adds t id l hook hl hheld hpool htrace =>
    have hquiet : Quiet s.pool s'.pool := hpool ▸ .update (fun _ => rfl) fun _ => rfl
    apply h.same (over_congr hquiet.terms)
    intro u
    rw [own_cons htrace]
    exact ite_self _
  | @ends t id l hl hheld hpool htrace =>
    have hnew := not_over hl hheld
    have hown := own_cons (f := Note.ended?) htrace
    have hmem (u : Fin n) (x : LeaseId) : x ∈ s'.own u Note.ended? ↔
        u = t ∧ x = id ∨ x ∈ s.own u Note.ended? := by
      rw [hown]
      by_cases hu : u = t <;> simp [hu, Note.ended?]
    have hfresh (u : Fin n) : id ∉ s.own u Note.ended? := fun hu => hnew ((h.ended id).mpr ⟨u, hu⟩)
    constructor
    · intro x
      rw [hpool, over_ends hl, h.ended]
      simp only [hmem]
      constructor
      · rintro (rfl | ⟨u, hu⟩)
        · exact ⟨t, .inl ⟨rfl, rfl⟩⟩
        · exact ⟨u, .inr hu⟩
      · rintro ⟨u, ⟨-, rfl⟩ | hu⟩
        · exact .inl rfl
        · exact .inr ⟨u, hu⟩
    · intro u x
      have hold := h.once u x
      rw [hown]
      split
      · by_cases hx : x = id
        · subst hx
          simp [Note.ended?, List.count_eq_zero_of_not_mem (hfresh u)]
        · simpa [Note.ended?, Ne.symm hx] using hold
      · exact hold
    · intro u v x hu hv
      obtain ⟨rfl, rfl⟩ | hu := (hmem u x).mp hu
      · obtain ⟨rfl, -⟩ | hv := (hmem v x).mp hv
        · rfl
        · exact absurd hv (hfresh v)
      · obtain ⟨-, rfl⟩ | hv := (hmem v x).mp hv
        · exact absurd hu (hfresh u)
        · exact h.one u v x hu hv

theorem Ends.empty : Ends ({} : State n) where
  ended x := iff_of_false (not_over_empty x) fun ⟨_, h⟩ => absurd h List.not_mem_nil
  once _ _ := Nat.zero_le 1
  one _ _ _ h := absurd h List.not_mem_nil

theorem Reachable.ends (h : Reachable policy s) : Ends s := by
  induction h with
  | refl => exact .empty
  | tail hs hmove ih => exact ih.change (Reachable.change hs hmove)

end PortLease.Threads.Hooks
