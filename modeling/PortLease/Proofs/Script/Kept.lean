import PortLease.Proofs.Script.Line

namespace PortLease.Script

variable {setting : Setting} {m m' : Machine} {id : LeaseId} {hook : Hook} {n : Nat}

def Known (m : Machine) (id : LeaseId) (hook : Hook) : Prop :=
  hook ∈ hooksOf m.pool id ∨ (id, hook) ∈ m.line

theorem Shift.next_le (hs : Shift m m') : m.hooks ≤ m'.hooks := by
  cases hs <;> omega

theorem Shift.known (hs : Shift m m') (h : Known m' id hook) :
    Known m id hook ∨ hook.number = m.hooks ∧ m'.hooks = m.hooks + 1 := by
  cases hs with
  | steady hkeeps hline => exact .inl (h.imp (hkeeps.hooks id ▸ ·) (hline ▸ ·))
  | registered hid hnumber hterms hhooks hline hstarts hnext =>
    obtain h | h := h
    · rw [hhooks] at h
      split at h
      · rename_i hx
        subst hx
        obtain rfl | h := List.mem_cons.mp h
        · exact .inr ⟨hnumber, hnext⟩
        · exact .inl (.inl h)
      · exact .inl (.inl h)
    · exact .inl (.inr (hline ▸ h))
  | taken hid hid' hstate hterms hhooks hline =>
    obtain h | h := h
    · rw [hhooks] at h
      split at h
      · cases h
      · exact .inl (.inl h)
    · rw [hline, List.mem_append, List.mem_map] at h
      obtain ⟨_, h, heq⟩ | h := h
      · cases heq
        exact .inl (.inl h)
      · exact .inl (.inr h)
  | late hid hstate hnumber hpool hline hstarts hnext =>
    obtain h | h := h
    · exact .inl (.inl (hpool ▸ h))
    · rw [hline] at h
      obtain heq | h := List.mem_cons.mp h
      · cases heq
        exact .inr ⟨hnumber, hnext⟩
      · exact .inl (.inr h)
  | started hkeeps hline =>
    refine .inl (h.imp (hkeeps.hooks id ▸ ·) fun h => ?_)
    rw [hline]
    exact List.mem_cons_of_mem _ h

structure Numbered (m : Machine) : Prop where
  known : ∀ id hook, Known m id hook → hook.number < m.hooks
  descending : ∀ id, (hooksOf m.pool id).Pairwise fun a b => b.number < a.number
  started : ∀ n, m.hooks ≤ n → m.starts n = 0

theorem Numbered.shift (h : Numbered m) (hs : Shift m m') : Numbered m' := by
  constructor
  · intro id hook hk
    have hle := hs.next_le
    obtain hk | ⟨hnumber, hnext⟩ := hs.known hk
    · exact Nat.lt_of_lt_of_le (h.known id hook hk) hle
    · omega
  · intro x
    cases hs with
    | steady hkeeps | started hkeeps =>
      rw [hkeeps.hooks]
      exact h.descending x
    | @registered id _ hook hid hnumber hterms hhooks =>
      rw [hhooks]
      split
      · refine List.pairwise_cons.mpr ⟨fun other hmem => ?_, h.descending id⟩
        have := h.known id other (.inl hmem)
        omega
      · exact h.descending x
    | taken hid hid' hstate hterms hhooks =>
      rw [hhooks]
      split
      · exact .nil
      · exact h.descending x
    | late hid hstate hnumber hpool =>
      rw [hpool]
      exact h.descending x
  · intro n hn
    have hle := Nat.le_trans hs.next_le hn
    cases hs with
    | started hkeeps hline hstarts =>
      have hlt := h.known _ _ (.inr (hline ▸ List.mem_cons_self))
      rw [hstarts, h.started n hle, if_neg (by omega)]
    | _ => simpa only [*] using h.started n hle

def Hook.isNumber (n : Nat) (hook : Hook) : Bool := hook.number == n

def places (m : Machine) (id : LeaseId) (n : Nat) : Nat :=
  (hooksOf m.pool id).countP (Hook.isNumber n) + (m.line.map Prod.snd).countP (Hook.isNumber n) +
    m.starts n

theorem countP_isNumber {hooks : List Hook} (h : ∀ x ∈ hooks, x.number ≠ n) :
    hooks.countP (Hook.isNumber n) = 0 := by
  apply List.countP_eq_zero.mpr
  intro x hx
  simpa [Hook.isNumber] using h x hx

theorem Shift.places (hs : Shift m m') (hn : n < m.hooks)
    (halone : ∀ x hook, Known m x hook → hook.number = n → x = id) :
    places m' id n = places m id n := by
  unfold Script.places
  cases hs with
  | steady hkeeps hline hstarts => rw [hkeeps.hooks, hline, hstarts]
  | @registered x _ hook hid hnumber hterms hhooks hline hstarts =>
    rw [hhooks, hline, hstarts]
    split
    · rename_i hx
      subst hx
      rw [List.countP_cons_of_neg]
      simp only [Hook.isNumber, beq_iff_eq]
      omega
    · rfl
  | @taken x port state hid hid' hstate hterms hhooks hline hstarts =>
    have hsnd : (hooksOf m.pool x).map (Prod.snd ∘ Prod.mk x) = hooksOf m.pool x := by
      simp [Function.comp_def]
    rw [hline, hhooks, hstarts, List.map_append, List.map_map, List.countP_append, hsnd]
    split
    · rename_i hx
      subst hx
      rw [List.countP_nil]
      omega
    · rename_i hx
      have hzero : (hooksOf m.pool x).countP (Hook.isNumber n) = 0 := by
        apply countP_isNumber
        intro hook hmem heq
        exact hx (halone x hook (.inl hmem) heq).symm
      omega
  | @late _ _ _ hook hid hstate hnumber hpool hline hstarts =>
    rw [hpool, hline, hstarts, List.map_cons, List.countP_cons_of_neg]
    simp only [Hook.isNumber, beq_iff_eq]
    omega
  | @started lease hook hkeeps hline hstarts =>
    rw [hkeeps.hooks, hline, hstarts, List.map_cons, List.countP_cons]
    simp only [Hook.isNumber, beq_iff_eq]
    omega

theorem Shift.stays_ended (hs : Shift m m') {port : Port} {state : LeaseState}
    (hid : terms m.pool id = some (port, state)) (hstate : state ≠ .held) :
    terms m'.pool id = some (port, state) := by
  cases hs with
  | steady hkeeps | started hkeeps => exact hkeeps.terms _ _ hid
  | registered _ _ hterms => exact (hterms id).trans hid
  | @taken x _ _ hheld _ _ hterms =>
    refine (hterms id fun hx => hstate ?_).trans hid
    rw [hx, hheld] at hid
    simp only [Option.some.injEq, Prod.mk.injEq] at hid
    exact hid.2.symm
  | late _ _ _ hpool => exact hpool ▸ hid

theorem Shift.not_held (hs : Shift m m') (hid : ∃ t, terms m.pool id = some t) (hover : ¬ m.Held id) :
    ¬ m'.Held id := by
  obtain ⟨⟨port, state⟩, hterms⟩ := hid
  have hstate : state ≠ .held := by
    rintro rfl
    exact hover (Machine.held_iff.mpr ⟨port, hterms⟩)
  rw [Machine.held_iff, hs.stays_ended hterms hstate]
  simpa using hstate

theorem Shift.port (hs : Shift m m') {port : Port} {state : LeaseState}
    (hid : terms m.pool id = some (port, state)) : ∃ state', terms m'.pool id = some (port, state') := by
  cases hs with
  | steady hkeeps | started hkeeps => exact ⟨state, hkeeps.terms _ _ hid⟩
  | registered _ _ hterms => exact ⟨state, (hterms id).trans hid⟩
  | @taken x port' state' hx hx' _ hterms =>
    by_cases heq : id = x
    · subst heq
      rw [hid, Option.some.injEq, Prod.mk.injEq] at hx
      exact ⟨state', hx.1 ▸ hx'⟩
    · exact ⟨state, (hterms id heq).trans hid⟩
  | late _ _ _ hpool => exact ⟨state, hpool ▸ hid⟩

theorem Shift.exists_terms (hs : Shift m m') (hid : ∃ t, terms m.pool id = some t) :
    ∃ t, terms m'.pool id = some t := by
  obtain ⟨⟨port, state⟩, ht⟩ := hid
  obtain ⟨state', hport⟩ := hs.port ht
  exact ⟨(port, state'), hport⟩

theorem Shift.held_iff (hs : Shift m m') (hid : ∃ t, terms m.pool id = some t)
    (hn : hook.number < m.hooks) (h : m.Held id ↔ hook ∈ hooksOf m.pool id) :
    m'.Held id ↔ hook ∈ hooksOf m'.pool id := by
  simp only [Machine.held_iff] at h ⊢
  cases hs with
  | steady hkeeps | started hkeeps =>
    obtain ⟨t, ht⟩ := hid
    rw [hkeeps.hooks, ← h, ht, hkeeps.terms id t ht]
  | @registered x _ new _ hnumber hterms hhooks =>
    rw [hterms, h, hhooks]
    split
    · rename_i hx
      subst hx
      have hne : hook ≠ new := by
        intro heq
        rw [heq] at hn
        omega
      simp [hne]
    · rfl
  | @taken x _ _ _ hid' hstate hterms hhooks =>
    rw [hhooks]
    split
    · rename_i hx
      subst hx
      simp [hid', hstate]
    · rename_i hx
      rw [hterms id hx]
      exact h
  | late _ _ _ hpool =>
    rw [hpool]
    exact h

/-- A hook that was registered with a lease: it is in one place, and no other hook has its number. -/
structure Kept (id : LeaseId) (hook : Hook) (m : Machine) : Prop where
  lease : ∃ t, terms m.pool id = some t
  alone : ∀ x other, Known m x other → other.number = hook.number → x = id ∧ other = hook
  once : places m id hook.number = 1
  held : m.Held id ↔ hook ∈ hooksOf m.pool id
  known : hook.number < m.hooks

theorem Kept.shift (h : Kept id hook m) (hs : Shift m m') : Kept id hook m' where
  lease := hs.exists_terms h.lease
  alone x other hk heq := by
    obtain hk | ⟨hnumber, -⟩ := hs.known hk
    · exact h.alone x other hk heq
    · have := h.known
      omega
  once := by
    rw [hs.places h.known fun x other hk heq => (h.alone x other hk heq).1]
    exact h.once
  held := hs.held_iff h.lease h.known h.held
  known := Nat.lt_of_lt_of_le h.known hs.next_le

theorem Numbered.places (hn : Numbered m) : places m id m.hooks = 0 := by
  have hwaiting : (hooksOf m.pool id).countP (Hook.isNumber m.hooks) = 0 := by
    apply countP_isNumber
    intro hook hmem
    exact Nat.ne_of_lt (hn.known id hook (.inl hmem))
  have hline : (m.line.map Prod.snd).countP (Hook.isNumber m.hooks) = 0 := by
    apply countP_isNumber
    intro hook hmem
    obtain ⟨⟨x, hook⟩, hx, rfl⟩ := List.mem_map.mp hmem
    exact Nat.ne_of_lt (hn.known x hook (.inr hx))
  rw [Script.places, hwaiting, hline, hn.started _ le_rfl]

theorem Numbered.kept (hn : Numbered m) (hs : Shift m m') (hk : Known m' id hook)
    (hnumber : hook.number = m.hooks) : Kept id hook m' := by
  have hold {x : LeaseId} {other : Hook} (hnumber : other.number = m.hooks) : ¬ Known m x other :=
    fun hk => Nat.ne_of_lt (hn.known x other hk) hnumber
  have hnext : m'.hooks = m.hooks + 1 := ((hs.known hk).resolve_left (hold hnumber)).2
  have hzero := @Numbered.places m id hn
  have hisNumber (new : Hook) (hnew : new.number = m.hooks) : Hook.isNumber m.hooks new := by
    simpa [Hook.isNumber] using hnew
  cases hs with
  | steady _ _ _ hsame | taken _ _ _ _ _ _ _ hsame | started _ _ _ hsame => omega
  | @registered x _ new hid hnew hterms hhooks hline hstarts =>
    have honly (y : LeaseId) (other : Hook) (hk : Known m' y other) (heq : other.number = m.hooks) :
        y = x ∧ other = new := by
      obtain hk | hk := hk
      · rw [hhooks] at hk
        split at hk
        · rename_i hy
          subst hy
          obtain rfl | hk := List.mem_cons.mp hk
          · exact ⟨rfl, rfl⟩
          · exact absurd (.inl hk) (hold heq)
        · exact absurd (.inl hk) (hold heq)
      · exact absurd (.inr (hline ▸ hk)) (hold heq)
    obtain ⟨rfl, rfl⟩ := honly id hook hk hnumber
    constructor
    · exact ⟨_, (hterms id).trans hid⟩
    · exact fun y other hk heq => honly y other hk (heq.trans hnumber)
    · rw [hnumber]
      simp only [Script.places] at hzero ⊢
      rw [hhooks, if_pos rfl, hline, hstarts, List.countP_cons_of_pos (hisNumber hook hnumber)]
      omega
    · rw [Machine.held_iff, hterms, hid, hhooks, if_pos rfl]
      simp
    · omega
  | @late x _ _ new hid hstate hnew hpool hline hstarts =>
    have honly (y : LeaseId) (other : Hook) (hk : Known m' y other) (heq : other.number = m.hooks) :
        y = x ∧ other = new := by
      obtain hk | hk := hk
      · exact absurd (.inl (hpool ▸ hk)) (hold heq)
      · rw [hline] at hk
        obtain heq' | hk := List.mem_cons.mp hk
        · cases heq'
          exact ⟨rfl, rfl⟩
        · exact absurd (.inr hk) (hold heq)
    obtain ⟨rfl, rfl⟩ := honly id hook hk hnumber
    constructor
    · exact ⟨_, hpool ▸ hid⟩
    · exact fun y other hk heq => honly y other hk (heq.trans hnumber)
    · rw [hnumber]
      simp only [Script.places] at hzero ⊢
      rw [hpool, hline, hstarts, List.map_cons, List.countP_cons_of_pos (hisNumber hook hnumber)]
      omega
    · rw [Machine.held_iff, hpool, hid]
      have hnot : hook ∉ hooksOf m.pool id := fun hmem => hold hnumber (.inl hmem)
      simp [hstate, hnot]
    · omega

theorem Reachable.numbered (h : Reachable setting m) : Numbered m := by
  induction h with
  | refl =>
    refine ⟨fun id hook hk => ?_, fun id => ?_, fun n _ => rfl⟩
    · obtain hk | hk := hk
      · simp [hooksOf, Pool.lease?, Pool.empty] at hk
      · cases hk
    · simp [hooksOf, Pool.lease?, Pool.empty]
  | tail hm hmove ih => exact ih.shift (Reachable.turn hm hmove).shift

theorem Reachable.kept (h : Reachable setting m) (hk : Known m id hook) : Kept id hook m := by
  induction h with
  | refl =>
    obtain hk | hk := hk
    · simp [hooksOf, Pool.lease?, Pool.empty] at hk
    · cases hk
  | tail hm hmove ih =>
    have hs := (Reachable.turn hm hmove).shift
    -- The hook was known before, or this is the move that registers it.
    obtain hk' | ⟨hnumber, -⟩ := hs.known hk
    · exact (ih hk').shift hs
    · exact (Reachable.numbered hm).kept hs hk hnumber

theorem Kept.leads (h : Kept id hook m) (hr : Reachable setting m) (hl : Leads setting m m') :
    Kept id hook m' := by
  induction hl with
  | refl => exact h
  | tail hl hmove ih => exact ih.shift (Reachable.turn (hr.leads hl) hmove).shift

theorem Kept.starts_le (h : Kept id hook m) : m.starts hook.number ≤ 1 := by
  have honce := h.once
  simp only [places] at honce
  omega

theorem Kept.waits (h : Kept id hook m) (hheld : m.Held id) :
    0 < (hooksOf m.pool id).countP (Hook.isNumber hook.number) :=
  List.countP_pos_iff.mpr ⟨hook, h.held.mp hheld, by simp [Hook.isNumber]⟩

theorem Kept.starts_held (h : Kept id hook m) (hheld : m.Held id) : m.starts hook.number = 0 := by
  have hwaits := h.waits hheld
  have honce := h.once
  simp only [places] at honce
  omega

end PortLease.Script
