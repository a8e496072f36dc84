import PortLease.Proofs.Script.CloseResult
import PortLease.Proofs.Script.LifeCycle
import PortLease.Proofs.Script.Returned

/-!
What a close tells of its hooks. It tells of each hook that it has taken from its lease, in the order in
which they run, and of none that ends meanwhile for another call. It comes to its end if what the hooks
and the port table's program do comes to an end.
-/

namespace PortLease.Script

variable {setting : Setting} {m m' : Machine} {id : LeaseId} {port : Port} {hooks : List Hook}
  {hook : Hook} {left : List Nat} {failures : List String} {verify : Bool} {base : List Frame} {n : Nat}
  {failure : Option Failure}

def numbers (hooks : List Hook) : List Nat := hooks.map Hook.number

def Machine.endingsOf (m : Machine) (hooks : List Hook) : List (Nat × Option Failure) :=
  m.endings.filter fun e => e.1 ∈ numbers hooks

def failureTexts (endings : List (Nat × Option Failure)) : List String :=
  endings.filterMap fun e => e.2.map Failure.text

theorem queue_below (above : List Frame) {running : Nat} {todo : List Hook} {occasion : Occasion} :
    ⟨base.length, id, port, running, todo⟩ ∈
      queues (above ++ .hooks id port running todo failures occasion :: base) := by
  induction above with
  | nil => exact List.mem_cons_self
  | cons f above ih => exact List.mem_append_right _ ih

theorem ends_pos (h : (n, failure) ∈ m.endings) : 0 < m.ends n := by
  obtain ⟨e, he, heq⟩ := List.mem_filterMap.mp (List.mem_reverse.mp h)
  apply List.countP_pos_iff.mpr
  refine ⟨e, he, ?_⟩
  cases e <;> simp only [Event.ending?, reduceCtorEq, Option.some.injEq, Prod.mk.injEq] at heq
  simp [Event.endsHook, heq.1]

theorem Kept.not_below (h : Kept id hook m) (hr : Reachable setting m) (hover : ¬ m.Held id) {g : Frame}
    {rest : List Frame} {lease : LeaseId} {todo : List Hook} {occasion : Occasion}
    (hs : m.stack = g :: .hooks lease port hook.number todo failures occasion :: rest) :
    m.ends hook.number = 0 ∧ ∀ q ∈ queues rest, q.running ≠ hook.number ∧
      ∀ other ∈ q.todo, other.number ≠ hook.number := by
  have hwhere := h.whereabouts hr hover
  have hrunning : m.running = ⟨rest.length, lease, port, hook.number, todo⟩ :: queues rest :=
    Machine.running_cons hs
  have hruns : m.runs hook.number =
      (queues rest).countP (fun q => q.running == hook.number) + 1 := by
    rw [Machine.runs, hrunning, List.countP_cons_of_pos (by simp)]
  refine ⟨by omega, fun q hq => ⟨fun heq => ?_, fun other hmem heq => ?_⟩⟩
  · have hpos : 0 < (queues rest).countP fun q => q.running == hook.number :=
      List.countP_pos_iff.mpr ⟨q, hq, by simpa using heq⟩
    omega
  · have hline : (q.lease, other) ∈ m.line := by
      refine List.mem_flatMap.mpr ⟨q, List.mem_append_right _ ?_, List.mem_map_of_mem hmem⟩
      rw [hrunning]
      exact List.mem_cons_of_mem _ hq
    have hpos : 0 < (m.line.map Prod.snd).countP (Hook.isNumber hook.number) :=
      List.countP_pos_iff.mpr ⟨other, List.mem_map_of_mem hline, by simpa [Hook.isNumber] using heq⟩
    omega

structure TakenFrom (setting : Setting) (id : LeaseId) (port : Port) (hooks : List Hook) (m : Machine) :
    Prop where
  reachable : Reachable setting m
  ended : ∃ state ≠ .held, terms m.pool id = some (port, state)
  kept : ∀ hook ∈ hooks, Kept id hook m

theorem TakenFrom.not_held (h : TakenFrom setting id port hooks m) : ¬ m.Held id := by
  obtain ⟨state, hstate, hterms⟩ := h.ended
  rw [Machine.held_iff, hterms]
  simpa using hstate

theorem TakenFrom.move (h : TakenFrom setting id port hooks m) (hmove : Move setting m m') :
    TakenFrom setting id port hooks m' where
  reachable := h.reachable.leads (.single hmove)
  ended := by
    obtain ⟨state, hstate, hterms⟩ := h.ended
    exact ⟨state, hstate, (h.reachable.turn hmove).shift.stays_ended hterms hstate⟩
  kept hook hmem := (h.kept hook hmem).shift (h.reachable.turn hmove).shift

/-- Of the hooks those with the numbers `left` have not ended, and `failures` tells of all others. -/
structure Tells (hooks : List Hook) (left : List Nat) (failures : List String) (m : Machine) : Prop where
  ran : (m.endingsOf hooks).map Prod.fst ++ left = numbers hooks
  failures : failures = failureTexts (m.endingsOf hooks)

theorem Tells.same (h : Tells hooks left failures m) (hendings : m'.endings = m.endings) :
    Tells hooks left failures m' := by
  have hsame : m'.endingsOf hooks = m.endingsOf hooks := by
    rw [Machine.endingsOf, hendings, ← Machine.endingsOf]
  exact ⟨hsame ▸ h.ran, hsame ▸ h.failures⟩

theorem Tells.other (h : Tells hooks left failures m) (hn : n ∉ numbers hooks)
    (hendings : m'.endings = m.endings ++ [(n, failure)]) : Tells hooks left failures m' := by
  have hsame : m'.endingsOf hooks = m.endingsOf hooks := by
    rw [Machine.endingsOf, hendings, List.filter_append, List.filter_singleton,
      decide_eq_false hn]
    exact List.append_nil _
  exact ⟨hsame ▸ h.ran, hsame ▸ h.failures⟩

theorem Tells.ended (h : Tells hooks (n :: left) failures m)
    (hendings : m'.endings = m.endings ++ [(n, failure)]) :
    Tells hooks left (failures ++ (failure.map Failure.text).toList) m' := by
  have hn : n ∈ numbers hooks := by
    rw [← h.ran]
    exact List.mem_append_right _ List.mem_cons_self
  have hmore : m'.endingsOf hooks = m.endingsOf hooks ++ [(n, failure)] := by
    rw [Machine.endingsOf, hendings, List.filter_append, List.filter_singleton, decide_eq_true hn]
    rfl
  constructor
  · rw [hmore, List.map_append, List.append_assoc]
    exact h.ran
  · rw [hmore, failureTexts, List.filterMap_append, ← failureTexts, ← h.failures]
    cases failure <;> rfl

theorem Tells.not_nested (h : Tells hooks left failures m) (ht : TakenFrom setting id port hooks m)
    {g : Frame} {rest : List Frame} {lease : LeaseId} {other : Port} {todo : List Hook} {occasion : Occasion}
    {told : List String} (hs : m.stack = g :: .hooks lease other n todo told occasion :: rest)
    (hleft : ∀ k ∈ left, ∃ q ∈ queues rest, q.running = k ∨ k ∈ numbers q.todo) : n ∉ numbers hooks := by
  intro hmem
  obtain ⟨hook, hhook, rfl⟩ := List.mem_map.mp hmem
  obtain ⟨hends, hbelow⟩ := (ht.kept hook hhook).not_below ht.reachable ht.not_held hs
  rw [← h.ran, List.mem_append] at hmem
  obtain hended | hleft' := hmem
  · obtain ⟨⟨_, failure⟩, he, rfl⟩ := List.mem_map.mp hended
    have hpos := ends_pos (List.mem_filter.mp he).1
    omega
  · obtain ⟨q, hq, hrunning | htodo⟩ := hleft _ hleft'
    · exact (hbelow q hq).1 hrunning
    · obtain ⟨other, hother, heq⟩ := List.mem_map.mp htodo
      exact (hbelow q hq).2 other hother heq

/-- How far a close has come: its hooks are still to run, or one of them runs, or the port has been asked
for. The number says how often the close still has its turn, the last time left out. -/
inductive Ongoing (id : LeaseId) (port : Port) (hooks : List Hook) (verify : Bool) (base : List Frame)
    (m : Machine) : Nat → Prop
  | resting {running : Nat} {todo : List Hook} {failures : List String}
      (hs : m.stack = .hooks id port running todo failures (.close verify) :: base)
      (h : Tells hooks (numbers todo) failures m) : Ongoing id port hooks verify base m (todo.length + 1)
  | running (g : Frame) (above : List Frame) {n : Nat} {todo : List Hook} {failures : List String}
      (hs : m.stack = g :: (above ++ .hooks id port n todo failures (.close verify) :: base))
      (h : Tells hooks (n :: numbers todo) failures m) :
      Ongoing id port hooks verify base m (todo.length + 1)
  | asked (above : List Frame) {query : Nat} {failures : List String}
      (hs : m.stack = above ++ .check port query failures :: base) (h : Tells hooks [] failures m) :
      Ongoing id port hooks verify base m 0

def afterClose (port : Port) (failures : List String) (todo : List Action) (current : Option LeaseId)
    (rest : List Frame) : List Frame :=
  if failures.isEmpty then .body todo current :: rest
  else .ending current (some (.error (.hooksFailed port failures))) :: rest

section Base

variable {todo : List Action} {current : Option LeaseId} {rest : List Frame} {rank : Nat}

structure Told (port : Port) (hooks : List Hook) (todo : List Action) (current : Option LeaseId)
    (rest : List Frame) (m : Machine) : Prop where
  tells : Tells hooks [] (failureTexts (m.endingsOf hooks)) m
  stack : m.stack = afterClose port (failureTexts (m.endingsOf hooks)) todo current rest

theorem settled_report {f : Frame} (hf : f.report? = some (port, failures)) :
    settled f (.body todo current :: rest) = afterClose port failures todo current rest := by
  simp only [settled, hf, afterClose]

theorem Tells.told (h : Tells hooks [] failures m)
    (hs : m.stack = afterClose port failures todo current rest) : Told port hooks todo current rest m := by
  obtain rfl := h.failures
  exact ⟨h, hs⟩

theorem Ongoing.deeper (h : Ongoing id port hooks verify base m rank) :
    base.length < m.stack.length := by
  cases h with
  | resting hs | running _ _ hs | asked _ hs =>
    rw [hs]
    simp only [List.length_append, List.length_cons]
    omega

theorem Machine.step_settles {running : Nat}
    (hno : (verify && setting.policy.checkRelease) = false)
    (hs : m.stack = .hooks id port running [] failures (.close verify) :: base) :
    m.step setting =
      { m with stack := settled (.hooks id port running [] failures (.close verify)) base } := by
  simp only [step, hs, finishHooks, hno, Bool.false_eq_true, if_false]
  exact settle_eq rfl

theorem Machine.endings_answers {query : Nat} (hs : m.stack = .check port query failures :: base) :
    (m.step setting).endings = m.endings := by
  have htrace := congrArg Machine.trace (@step_answers setting m port base query failures hs)
  rw [← List.append_assoc] at htrace
  apply endings_append htrace
  intro e he
  obtain he | he := List.mem_append.mp he
  · exact isCalm_logs _ e (List.mem_reverse.mp he)
  · exact isCalm_logs _ e (List.mem_reverse.mp he)

theorem Ongoing.turn (setting : Setting)
    (h : Ongoing id port hooks verify (.body todo current :: rest) m rank)
    (htop : m.stack.length = rest.length + 2) :
    Told port hooks todo current rest (m.step setting) ∨
      ∃ rank' < rank, Ongoing id port hooks verify (.body todo current :: rest) (m.step setting) rank' := by
  cases h with
  | @resting running left failures hs h =>
    cases left with
    | cons hook left =>
      right
      refine ⟨left.length + 1, Nat.lt_succ_self _, ?_⟩
      have hstep : (m.step setting).stack = .body hook.body (m.pool.current? port) ::
            .hooks id port hook.number left failures (.close verify) :: .body todo current :: rest ∧
          (m.step setting).endings = m.endings := by
        simp only [Machine.step, hs, Machine.push, Machine.startHook_eq]
        exact ⟨trivial, rfl⟩
      exact .running _ [] hstep.1 (h.same hstep.2)
    | nil =>
      cases hcheck : verify && setting.policy.checkRelease with
      | true =>
        right
        obtain ⟨rfl, hcheck⟩ := Bool.and_eq_true_iff.mp hcheck
        refine ⟨0, Nat.succ_pos _, ?_⟩
        rw [Machine.step_asks hcheck hs]
        exact .asked [_] rfl (h.same rfl)
      | false =>
        left
        have hstep := Machine.step_settles hcheck hs
        have hsame : Tells hooks [] failures (m.step setting) := h.same (by rw [hstep]; rfl)
        refine hsame.told ?_
        rw [hstep]
        exact settled_report (f := .hooks id port running [] failures (.close verify)) rfl
  | running _ _ hs =>
    rw [hs] at htop
    simp only [List.length_append, List.length_cons] at htop
    omega
  | @asked above query failures hs h =>
    left
    obtain rfl : above = [] := by
      rw [hs] at htop
      simp only [List.length_append, List.length_cons] at htop
      exact List.length_eq_zero_iff.mp (by omega)
    rw [List.nil_append] at hs
    have hsame : Tells hooks [] failures (m.step setting) := h.same (Machine.endings_answers hs)
    refine hsame.told ?_
    rw [Machine.step_answers hs]
    exact settled_report (f := .check port query failures) rfl

theorem Ongoing.covered (ht : TakenFrom setting id port hooks m)
    (h : Ongoing id port hooks verify (.body todo current :: rest) m rank)
    (hdeep : rest.length + 2 < m.stack.length) :
    ∃ rank' ≤ rank, Ongoing id port hooks verify (.body todo current :: rest) (m.step setting) rank' := by
  have hd := Machine.step_deed ht.reachable.sound
  have hnested := ht.reachable.nested
  cases h with
  | resting hs =>
    rw [hs] at hdeep
    simp at hdeep
  | @running g above n left failures hs h =>
    refine ⟨_, le_rfl, ?_⟩
    cases hd.over rfl hs with
    | covered g' above' hs' hendings => exact .running g' above' hs' (h.same hendings)
    | bare habove hcode =>
      -- Only code stands right above the frame of a close.
      subst habove
      rw [Machine.Nested, hs] at hnested
      have hg := (List.isChain_cons_cons.mp hnested).1
      simp only [Frame.isPlain, Bool.false_eq_true, or_false] at hg
      exact absurd rfl (hcode hg _ _ _ _ _ _)
    | nested habove hs' hendings =>
      subst habove
      refine .running _ _ hs' (h.other (h.not_nested ht hs ?_) hendings)
      intro k hk
      refine ⟨_, queue_below _, ?_⟩
      exact (List.mem_cons.mp hk).imp_left Eq.symm
    | own hf hs' hendings =>
      cases hf
      exact .resting hs' (h.ended hendings)
  | @asked above query failures hs h =>
    refine ⟨_, le_rfl, ?_⟩
    cases above with
    | nil =>
      rw [hs] at hdeep
      simp at hdeep
    | cons g above =>
      cases hd.over rfl hs with
      | covered g' above' hs' hendings => exact .asked (g' :: above') hs' (h.same hendings)
      | bare _ _ hs' hendings => exact .asked [] hs' (h.same hendings)
      | @nested lease port n todo failures occasion above' g' failure habove hs' hendings =>
        subst habove
        exact .asked (g' :: above') hs' (h.other (h.not_nested ht hs nofun) hendings)
      | own hf => cases hf

theorem Ongoing.redirect (h : Ongoing id port hooks verify base m rank) (actions : List Action) :
    Ongoing id port hooks verify base (m.redirect actions) rank := by
  have hendings : (m.redirect actions).endings = m.endings := by
    rw [Machine.endings, Machine.redirect_trace, ← Machine.endings]
  cases h with
  | resting hs h =>
    rw [Machine.redirect_bare rfl hs]
    exact .resting hs h
  | running g above hs h =>
    obtain ⟨g', hs'⟩ := Machine.redirect_covered hs actions
    exact .running g' above hs' (h.same hendings)
  | asked above hs h =>
    obtain ⟨above', hs'⟩ := Machine.redirect_above rfl hs actions
    exact .asked above' hs' (h.same hendings)

theorem Ongoing.move (ht : TakenFrom setting id port hooks m)
    (h : Ongoing id port hooks verify (.body todo current :: rest) m rank) (hmove : Move setting m m') :
    Told port hooks todo current rest m' ∨
      ∃ rank' ≤ rank, Ongoing id port hooks verify (.body todo current :: rest) m' rank' := by
  cases hmove with
  | step =>
    by_cases hdeep : rest.length + 2 < m.stack.length
    · exact .inr (h.covered ht hdeep)
    · have hdeeper := h.deeper
      rw [List.length_cons] at hdeeper
      obtain htold | ⟨rank', hlt, h'⟩ := h.turn setting (by omega)
      · exact .inl htold
      · exact .inr ⟨rank', Nat.le_of_lt hlt, h'⟩
  | redirect actions => exact .inr ⟨rank, le_rfl, h.redirect actions⟩

theorem Told.length (h : Told port hooks todo current rest m) : m.stack.length = rest.length + 1 := by
  rw [h.stack, afterClose]
  split <;> rfl

theorem Ongoing.within (ht : TakenFrom setting id port hooks m)
    (h : Ongoing id port hooks verify (.body todo current :: rest) m rank)
    (hw : Within setting (rest.length + 1) m m') :
    TakenFrom setting id port hooks m' ∧ (Told port hooks todo current rest m' ∨
      ∃ rank' ≤ rank, Ongoing id port hooks verify (.body todo current :: rest) m' rank') := by
  induction hw with
  | refl => exact ⟨ht, .inr ⟨rank, le_rfl, h⟩⟩
  | tail _ hmove ih =>
    obtain ⟨hdeep, hmove⟩ := hmove
    obtain ⟨ht', htold | ⟨rank', hle, h'⟩⟩ := ih
    · rw [htold.length] at hdeep
      exact absurd hdeep (Nat.lt_irrefl _)
    · refine ⟨ht'.move hmove, ?_⟩
      obtain htold | ⟨rank'', hle', h''⟩ := h'.move ht' hmove
      · exact .inl htold
      · exact .inr ⟨rank'', hle'.trans hle, h''⟩

theorem Ongoing.told (ht : TakenFrom setting id port hooks m)
    (h : Ongoing id port hooks verify (.body todo current :: rest) m rank)
    (hw : Within setting (rest.length + 1) m m') (hlen : m'.stack.length ≤ rest.length + 1) :
    TakenFrom setting id port hooks m' ∧ Told port hooks todo current rest m' := by
  obtain ⟨ht', htold | ⟨rank', -, h'⟩⟩ := h.within ht hw
  · exact ⟨ht', htold⟩
  · exact absurd h'.deeper (Nat.not_lt.mpr hlen)

/-- As long as the run is above `k` frames, it comes back to the frame right above them again and again,
and goes on from there by a step. -/
def Resumes (setting : Setting) (k : Nat) (run : Nat → Machine) : Prop :=
  ∀ t, (∀ i ≤ t, k < (run i).stack.length) →
    ∃ u ≥ t, (run u).stack.length ≤ k + 1 ∧ run (u + 1) = (run u).step setting

theorem within_run {run : Nat → Machine} (hrun : ∀ n, Move setting (run n) (run (n + 1))) {k t u : Nat}
    (hle : t ≤ u) (hdeep : ∀ i < u, k < (run i).stack.length) : Within setting k (run t) (run u) := by
  induction u, hle using Nat.le_induction with
  | base => exact .refl
  | succ u hle ih =>
    exact (ih fun i hi => hdeep i (Nat.lt_succ_of_lt hi)).tail ⟨hdeep u (Nat.lt_succ_self u), hrun u⟩

theorem within_first {run : Nat → Machine} (hrun : ∀ n, Move setting (run n) (run (n + 1))) {k : Nat}
    (h : ∃ n, (run n).stack.length ≤ k) :
    ∃ n, Within setting k (run 0) (run n) ∧ (run n).stack.length ≤ k := by
  refine ⟨Nat.find h, within_run hrun (Nat.zero_le _) fun i hi => ?_, Nat.find_spec h⟩
  exact Nat.not_le.mp (Nat.find_min h hi)

theorem Ongoing.returns {run : Nat → Machine} (hrun : ∀ n, Move setting (run n) (run (n + 1)))
    (hresumes : Resumes setting (rest.length + 1) run) (ht : TakenFrom setting id port hooks (run 0))
    (h : Ongoing id port hooks verify (.body todo current :: rest) (run 0) rank) :
    ∃ n, (run n).stack.length ≤ rest.length + 1 := by
  by_contra hnever
  simp only [not_exists, Nat.not_le] at hnever
  -- Each time the close has its turn, the number of turns that are left falls.
  have hturns : ∀ rank t, TakenFrom setting id port hooks (run t) →
      ¬ Ongoing id port hooks verify (.body todo current :: rest) (run t) rank := by
    intro rank
    induction rank using Nat.strong_induction_on with
    | h rank ih =>
      intro t ht h
      obtain ⟨u, hu, htop, hstep⟩ := hresumes t fun i _ => hnever i
      obtain ⟨ht', htold | ⟨rank', hle, h'⟩⟩ := h.within ht (within_run hrun hu fun i _ => hnever i)
      · exact absurd (hnever u) (by rw [htold.length]; exact Nat.lt_irrefl _)
      · have hdeep := hnever u
        obtain htold | ⟨rank'', hlt, h''⟩ := h'.turn setting (by omega)
        · rw [← hstep] at htold
          exact absurd (hnever (u + 1)) (by rw [htold.length]; exact Nat.lt_irrefl _)
        · rw [← hstep] at h''
          exact ih rank'' (Nat.lt_of_lt_of_le hlt hle) (u + 1) (ht'.move (hrun u)) h''
  exact hturns rank 0 ht h

end Base

theorem Machine.Closes.begins (hr : Reachable setting m) {below : List Frame}
    (hcloses : m.Closes id verify below) {l : Lease Hook} (hl : m.pool.lease? id = some l)
    (hheld : l.state = .held) :
    TakenFrom setting id l.port l.hooks (m.step setting) ∧
      Ongoing id l.port l.hooks verify below (m.step setting) (l.hooks.length + 1) := by
  have hstep := @step_held setting m id verify below hcloses l hl hheld
  have hhooks : hooksOf m.pool id = l.hooks := by rw [hooksOf, hl, Option.map_some, Option.getD_some]
  have hkept (hook : Hook) (hmem : hook ∈ l.hooks) : Kept id hook m :=
    hr.kept (.inl (hhooks ▸ hmem))
  refine ⟨⟨hr.step, ⟨.closed, by decide, ?_⟩, fun hook hmem => ?_⟩, ?_⟩
  · rw [hstep, terms_release, terms_update hl, if_pos rfl]
    rfl
  · exact (hkept hook hmem).shift (Reachable.turn hr (.step m)).shift
  · have hnone : m.endingsOf l.hooks = [] := by
      apply List.filter_eq_nil_iff.mpr
      rintro ⟨n, failure⟩ he hn
      obtain ⟨hook, hmem, rfl⟩ := List.mem_map.mp (of_decide_eq_true hn)
      have hends := ends_pos he
      have hstarts := (hkept hook hmem).starts_held ⟨l, hl, hheld⟩
      have htally := @Reachable.tally setting m hook.number hr
      omega
    have htells : Tells l.hooks (numbers l.hooks) [] m := by
      constructor <;> rw [hnone] <;> rfl
    rw [hstep]
    exact .resting rfl (htells.same rfl)

end PortLease.Script
