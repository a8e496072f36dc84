import PortLease.Proofs.Script.Occupancy

namespace PortLease.Script

variable {setting : Setting} {m m' : Machine}

def Action.isClose : Action → Bool
  | .close .. | .closeCurrent _ => true
  | _ => false

def Within (setting : Setting) (k : Nat) : Machine → Machine → Prop :=
  Relation.ReflTransGen fun m m' => k < m.stack.length ∧ Move setting m m'

def ClosesOrTells (setting : Setting) (m : Machine) : Prop :=
  ∀ action todo current rest, m.stack = .body (action :: todo) current :: rest → action.isClose →
    ∀ m', Within setting m.stack.length (m.step setting) m' → m'.stack.length ≤ m.stack.length →
      m'.stack = .body todo current :: rest ∨
        ∃ port failures, failures ≠ [] ∧
          m'.stack = .ending current (some (.error (.hooksFailed port failures))) :: rest

def Frame.isClosing : Frame → Bool
  | .hooks _ _ _ _ _ (.close _) | .check .. => true
  | _ => false

theorem settled_of_isPlain {f g : Frame} {below : List Frame} (hg : g.isPlain = false) :
    settled f (g :: below) = g :: below := by
  unfold settled
  split
  · rename_i heq
    cases heq
    cases hg
  · rfl

theorem exists_settled (f g : Frame) (below : List Frame) : ∃ g', settled f (g :: below) = g' :: below := by
  unfold settled
  split
  · rename_i heq
    cases heq
    split
    · exact ⟨_, rfl⟩
    · exact ⟨_, rfl⟩
  · exact ⟨g, rfl⟩

theorem length_settled (f : Frame) (rest : List Frame) : (settled f rest).length = rest.length := by
  unfold settled
  split
  · split <;> rfl
  · rfl

theorem Machine.step_asks {id : LeaseId} {port : Port} {base : List Frame}
    (hcheck : setting.policy.checkRelease = true) {running : Nat}
    {failures : List String}
    (hs : m.stack = .hooks id port running [] failures (.close true) :: base) :
    m.step setting = { m with
      queries := m.queries + 1
      stack := .body setting.reaction none :: .check port m.queries failures :: base
      trace := .queried (some port) :: m.trace } := by
  simp only [step, hs, finishHooks, hcheck, Bool.and_self, if_true, push, emit]

theorem Machine.step_answers {port : Port} {base : List Frame} {query : Nat} {failures : List String}
    (hs : m.stack = .check port query failures :: base) :
    m.step setting = { m with
      stack := settled (.check port query failures) base
      trace := ((verdict port (setting.table query).conclusive
          ((setting.table query).query (some port)).sockets).map Event.log).reverse ++
        ((((setting.table query).query (some port)).log.map Event.log).reverse ++ m.trace) } := by
  simp only [step, hs, logAll_eq]
  rw [settle_eq (f := .check port query failures) rfl]

def Event.ending? : Event → Option (Nat × Option Failure)
  | .hookEnded _ n failure => some (n, failure)
  | _ => none

def Machine.endings (m : Machine) : List (Nat × Option Failure) :=
  (m.trace.filterMap Event.ending?).reverse

theorem Machine.endings_append {events : List Event} (htrace : m'.trace = events ++ m.trace)
    (hquiet : ∀ e ∈ events, e.isCalm) : m'.endings = m.endings := by
  have hnone : events.filterMap Event.ending? = [] := by
    apply List.filterMap_eq_nil_iff.mpr
    intro e he
    have hcalm := hquiet e he
    cases e <;> first | rfl | cases hcalm
  rw [endings, endings, htrace, List.filterMap_append, hnone, List.nil_append]

theorem Machine.endings_ended {lease : LeaseId} {n : Nat} {failure : Option Failure}
    (htrace : m'.trace = .hookEnded lease n failure :: m.trace) :
    m'.endings = m.endings ++ [(n, failure)] := by
  rw [endings, endings, htrace, List.filterMap_cons]
  exact List.reverse_cons

inductive Over (m m' : Machine) (g : Frame) (above : List Frame) (f : Frame) (base : List Frame) : Prop
  | covered (g' : Frame) (above' : List Frame) (hs' : m'.stack = g' :: (above' ++ f :: base))
      (hendings : m'.endings = m.endings)
  | bare (habove : above = [])
      (hcode : g.isCode → ∀ lease port running todo failures occasion,
        f ≠ .hooks lease port running todo failures occasion)
      (hs' : m'.stack = f :: base) (hendings : m'.endings = m.endings)
  | nested {lease : LeaseId} {port : Port} {n : Nat} {todo : List Hook} {failures : List String}
      {occasion : Occasion} {above' : List Frame} {g' : Frame} {failure : Option Failure}
      (habove : above = .hooks lease port n todo failures occasion :: above')
      (hs' : m'.stack = g' :: (above' ++ f :: base))
      (hendings : m'.endings = m.endings ++ [(n, failure)])
  | own {lease : LeaseId} {port : Port} {n : Nat} {todo : List Hook} {failures : List String}
      {occasion : Occasion} {failure : Option Failure}
      (hf : f = .hooks lease port n todo failures occasion)
      (hs' : m'.stack = .hooks lease port n todo (failures ++ (failure.map Failure.text).toList) occasion ::
        base)
      (hendings : m'.endings = m.endings ++ [(n, failure)])

theorem Deed.over {f g : Frame} {above base : List Frame} (hf : f.isPlain = false)
    (hs : m.stack = g :: (above ++ f :: base)) (hd : Deed setting m m') : Over m m' g above f base := by
  cases hd with
  | idle hs' => cases hs.symm.trans hs'
  | pass _ hs' _ _ _ he | exhaust _ hs' _ _ _ _ he =>
    obtain ⟨-, rfl⟩ := List.cons.inj (hs.symm.trans hs')
    exact .covered _ above rfl (Machine.endings_append rfl he)
  | lessen hs' | stored hs' | register hs' =>
    obtain ⟨-, rfl⟩ := List.cons.inj (hs.symm.trans hs')
    exact .covered _ above rfl rfl
  | grant _ hs' _ _ _ _ _ he | share _ hs' _ _ _ _ he =>
    obtain ⟨-, rfl⟩ := List.cons.inj (hs.symm.trans hs')
    exact .covered _ (_ :: above) rfl (Machine.endings_append rfl he)
  | ended hs' | late hs' | hookStarted hs' | queried hs' =>
    obtain ⟨-, rfl⟩ := List.cons.inj (hs.symm.trans hs')
    exact .covered _ (_ :: above) rfl rfl
  | handedOver hs' =>
    obtain ⟨rfl, rfl⟩ := List.cons.inj (hs.symm.trans hs')
    cases above with
    | nil => exact .bare rfl nofun rfl rfl
    | cons h above => exact .covered _ above rfl rfl
  | bodyEnded hs' hrest =>
    obtain ⟨-, rfl⟩ := List.cons.inj (hs.symm.trans hs')
    cases above with
    | nil =>
      refine .bare rfl (fun _ lease port running todo failures occasion heq => ?_) rfl rfl
      exact hrest _ _ _ _ _ _ _ (congrArg (· :: base) heq)
    | cons h above => exact .covered _ above rfl rfl
  | hookEnded hs' =>
    obtain ⟨-, hrest⟩ := List.cons.inj (hs.symm.trans hs')
    cases above with
    | nil =>
      obtain ⟨rfl, rfl⟩ := List.cons.inj hrest
      exact .own rfl rfl (Machine.endings_ended rfl)
    | cons h above =>
      obtain ⟨rfl, rfl⟩ := List.cons.inj hrest
      exact .nested rfl rfl (Machine.endings_ended rfl)
  | @settle last _ _ hs' hlast he =>
    obtain ⟨rfl, rfl⟩ := List.cons.inj (hs.symm.trans hs')
    cases above with
    | nil =>
      refine .bare rfl (fun hcode => ?_) (settled_of_isPlain hf) (Machine.endings_append rfl he)
      rw [Frame.isCode_of_isLast hlast] at hcode
      cases hcode
    | cons h above =>
      obtain ⟨h', heq⟩ := exists_settled g h (above ++ f :: base)
      exact .covered _ above heq (Machine.endings_append rfl he)

inductive Frame.Continues : Frame → Frame → Prop
  | refl (f : Frame) : Continues f f
  | failed {lease : LeaseId} {port : Port} {running : Nat} {todo : List Hook}
      {failures failures' : List String} {occasion : Occasion} :
      Continues (.hooks lease port running todo failures occasion)
        (.hooks lease port running todo failures' occasion)

theorem Deed.above {f g : Frame} {above base : List Frame} (hf : f.isPlain = false)
    (hs : m.stack = g :: (above ++ f :: base)) (hd : Deed setting m m') :
    ∃ above' f', m'.stack = above' ++ f' :: base ∧ f.Continues f' := by
  cases hd.over hf hs with
  | covered _ _ hs' | nested _ hs' => exact ⟨_ :: _, f, hs', .refl f⟩
  | bare _ _ hs' => exact ⟨[], f, hs', .refl f⟩
  | own heq hs' => exact ⟨[], _, hs', heq ▸ .failed⟩

theorem Machine.redirect_covered {g : Frame} {rest : List Frame} (hs : m.stack = g :: rest)
    (actions : List Action) : ∃ g', (m.redirect actions).stack = g' :: rest := by
  unfold Machine.redirect
  split
  · rename_i hnil
    cases hs.symm.trans hnil
  · rename_i hcode
    obtain ⟨-, rfl⟩ := List.cons.inj (hs.symm.trans hcode)
    exact ⟨_, rfl⟩
  · rename_i hcode
    obtain ⟨-, rfl⟩ := List.cons.inj (hs.symm.trans hcode)
    exact ⟨_, rfl⟩
  · exact ⟨g, hs⟩

theorem Machine.redirect_bare {f : Frame} {base : List Frame} (hf : f.isPlain = false)
    (hs : m.stack = f :: base) (actions : List Action) : m.redirect actions = m := by
  unfold Machine.redirect
  rw [hs]
  cases f <;> first | rfl | cases hf

theorem Machine.redirect_above {f : Frame} {above base : List Frame} (hf : f.isPlain = false)
    (hs : m.stack = above ++ f :: base) (actions : List Action) :
    ∃ above', (m.redirect actions).stack = above' ++ f :: base := by
  cases above with
  | nil =>
    rw [redirect_bare hf hs actions]
    exact ⟨[], hs⟩
  | cons g above =>
    obtain ⟨g', hs'⟩ := redirect_covered hs actions
    exact ⟨g' :: above, hs'⟩

section Closing

variable {todo : List Action} {current : Option LeaseId} {rest : List Frame}

inductive Closing (todo : List Action) (current : Option LeaseId) (rest : List Frame) :
    List Frame → Prop
  | underWay (above : List Frame) {f : Frame} (hf : f.isClosing) :
      Closing todo current rest (above ++ f :: .body todo current :: rest)
  | done : Closing todo current rest (.body todo current :: rest)
  | failed {port : Port} {failures : List String} (h : failures ≠ []) :
      Closing todo current rest (.ending current (some (.error (.hooksFailed port failures))) :: rest)

theorem Frame.isPlain_of_isClosing {f : Frame} (hf : f.isClosing) : f.isPlain = false := by
  cases f <;> first | rfl | cases hf

theorem Frame.report?_of_isClosing {f : Frame} (hf : f.isClosing) (hlast : f.isLast) :
    ∃ port failures, f.report? = some (port, failures) := by
  cases f with
  | hooks _ port _ todo failures occasion =>
    cases todo with
    | nil =>
      cases occasion with
      | close => exact ⟨port, failures, rfl⟩
      | _ => cases hf
    | cons => cases hlast
  | check port _ failures => exact ⟨port, failures, rfl⟩
  | _ => cases hf

theorem Closing.top {f : Frame} (hf : f.isClosing) (hs : m.stack = f :: .body todo current :: rest)
    (hd : Deed setting m m') : Closing todo current rest m'.stack := by
  have hplain := Frame.isPlain_of_isClosing hf
  have hnot {g : Frame} {below : List Frame} (hs' : m.stack = g :: below) (hg : g.isPlain) : False := by
    obtain ⟨rfl, -⟩ := List.cons.inj (hs.symm.trans hs')
    rw [hg] at hplain
    cases hplain
  cases hd with
  | idle hs' => cases hs.symm.trans hs'
  | pass _ hs' hcode | grant _ hs' hcode | exhaust _ hs' hcode | share _ hs' hcode =>
    exact (hnot hs' (Frame.isPlain_of_isCode hcode)).elim
  | lessen hs' hg | ended hs' hg | stored hs' hg => exact (hnot hs' hg).elim
  | register hs' | late hs' | handedOver hs' | bodyEnded hs' | hookEnded hs' =>
    exact (hnot hs' rfl).elim
  | hookStarted hs' =>
    obtain ⟨rfl, rfl⟩ := List.cons.inj (hs.symm.trans hs')
    exact .underWay [_] (by cases ‹Occasion› <;> first | rfl | cases hf)
  | queried hs' =>
    obtain ⟨rfl, rfl⟩ := List.cons.inj (hs.symm.trans hs')
    exact .underWay [_] rfl
  | settle _ hs' hlast =>
    obtain ⟨rfl, rfl⟩ := List.cons.inj (hs.symm.trans hs')
    obtain ⟨port, failures, hreport⟩ := Frame.report?_of_isClosing hf hlast
    simp only [settled, hreport]
    split
    · exact .done
    · rename_i hfailures
      exact .failed fun hnil => hfailures (List.isEmpty_iff.mpr hnil)

theorem Frame.isClosing_of_continues {f f' : Frame} (h : f.Continues f') (hf : f.isClosing) :
    f'.isClosing := by
  cases h with
  | refl => exact hf
  | failed => cases ‹Occasion› <;> first | rfl | cases hf

theorem Closing.above {f g : Frame} {above : List Frame} (hf : f.isClosing)
    (hs : m.stack = g :: (above ++ f :: .body todo current :: rest)) (hd : Deed setting m m') :
    Closing todo current rest m'.stack := by
  obtain ⟨above', f', hs', hcontinues⟩ := hd.above (Frame.isPlain_of_isClosing hf) hs
  rw [hs']
  exact .underWay above' (Frame.isClosing_of_continues hcontinues hf)

theorem Closing.redirect {f : Frame} {above : List Frame} (hf : f.isClosing)
    (hs : m.stack = above ++ f :: .body todo current :: rest) (actions : List Action) :
    Closing todo current rest (m.redirect actions).stack := by
  obtain ⟨above', hs'⟩ := Machine.redirect_above (Frame.isPlain_of_isClosing hf) hs actions
  rw [hs']
  exact .underWay above' hf

theorem Closing.move (hr : Reachable setting m) (h : Closing todo current rest m.stack)
    (hlen : rest.length + 1 < m.stack.length) (hmove : Move setting m m') :
    Closing todo current rest m'.stack := by
  generalize hs : m.stack = stack at h
  cases h with
  | @underWay above f hf =>
    cases hmove with
    | step =>
      have hd := Machine.step_deed hr.sound
      cases above with
      | nil => exact Closing.top hf hs hd
      | cons g above => exact Closing.above hf hs hd
    | redirect actions => exact Closing.redirect hf hs actions
  | done | failed => exact absurd (hs ▸ hlen) (Nat.lt_irrefl _)

theorem Closing.returned {stack : List Frame} (h : Closing todo current rest stack)
    (hlen : stack.length ≤ rest.length + 1) :
    stack = .body todo current :: rest ∨ ∃ port failures, failures ≠ [] ∧
      stack = .ending current (some (.error (.hooksFailed port failures))) :: rest := by
  cases h with
  | underWay above =>
    simp only [List.length_append, List.length_cons] at hlen
    omega
  | done => exact .inl rfl
  | @failed port failures hne => exact .inr ⟨port, failures, hne, rfl⟩

end Closing

theorem Machine.close_stack (m : Machine) (id : LeaseId) (verify : Bool) {todo : List Action}
    {current : Option LeaseId} {rest : List Frame} (hs : m.stack = .body todo current :: rest) :
    Closing todo current rest (m.close id verify).stack := by
  unfold close
  rcases m.pool.close id with ⟨_ | l, pool⟩
  · exact hs ▸ .done
  · simp only [push, log, emit, hs]
    exact .underWay [] rfl

theorem closes_or_tells (h : Reachable setting m) : ClosesOrTells setting m := by
  intro action todo current rest hs hclose m' hw hlen
  have hfirst : Closing todo current rest (m.step setting).stack := by
    have hbody (act : Machine → Machine) (hact : ∀ m : Machine,
        m.stack = .body todo current :: rest → Closing todo current rest (act m).stack) :
        Closing todo current rest
          (act (({ m with stack := rest } : Machine).push (.body todo current))).stack := hact _ rfl
    cases action with
    | close slot verify =>
      simp only [Machine.step, hs, Machine.perform]
      refine hbody (·.withSlot slot fun m id => m.close id verify) fun m hs => ?_
      unfold Machine.withSlot
      split
      · exact hs ▸ .done
      · exact m.close_stack _ verify hs
    | closeCurrent verify =>
      simp only [Machine.step, hs, Machine.perform]
      cases current with
      | none => exact .done
      | some id => exact hbody (·.close id verify) fun m hs => m.close_stack id verify hs
    | _ => cases hclose
  -- From then on every move keeps the close under way or returns from it.
  have hboth : Reachable setting m' ∧ Closing todo current rest m'.stack := by
    clear hlen
    induction hw with
    | refl => exact ⟨h.step, hfirst⟩
    | tail _ hmove ih =>
      obtain ⟨hdeep, hmove⟩ := hmove
      rw [hs, List.length_cons] at hdeep
      exact ⟨ih.1.tail hmove, ih.2.move ih.1 hdeep hmove⟩
  refine hboth.2.returned ?_
  rw [hs] at hlen
  exact hlen

end PortLease.Script
