import PortLease.Proofs.Script.Advisory
import PortLease.Proofs.Script.HookOrder
import PortLease.Proofs.Script.LifeCycle
import PortLease.Proofs.Script.Verdict

/-!
When the port table is asked. A close of a held lease that is to be checked asks it once, about the port
of the lease, when the lease has let go of the port and the hooks it had have all ended; nothing else asks
it. The answer is reported when the close returns, and by nothing else.
-/

namespace PortLease.Script

variable {settings : Settings} {setting : Setting} {m m' : Machine} {run : Nat → Machine}
  {id : LeaseId} {port : Port} {base : List Frame} {c t q r : Nat}

structure IsRun (setting : Setting) (run : Nat → Machine) : Prop where
  fresh : run 0 = {}
  move : ∀ n, Move setting (run n) (run (n + 1))

def Adds (m m' : Machine) (event : Event) : Prop := m.trace.count event < m'.trace.count event

/-- The next step of the run closes a held lease, and it asks and is allowed to have the release checked. -/
structure Checked (settings : Settings) (setting : Setting) (run : Nat → Machine) (c : Nat)
    (id : LeaseId) (port : Port) : Prop where
  closes : ∃ below, (run c).Closes id true below
  step : run (c + 1) = (run c).step setting
  held : ∃ l, (run c).pool.lease? id = some l ∧ l.state = .held ∧ l.port = port
  allowed : settings.disableReleaseCheck = false ∧ settings.envDisableReleaseCheck = false

/-- The call made at `c` has not returned. -/
def Pending (run : Nat → Machine) (c t : Nat) : Prop :=
  c < t ∧ ∀ i, c < i → i ≤ t → (run c).stack.length < (run i).stack.length

/-- The call made at `c` asks the port table at `q`, itself and not through a call within it. -/
structure Serves (run : Nat → Machine) (c q : Nat) : Prop where
  pending : Pending run c q
  level : (run q).stack.length = (run c).stack.length + 1
  asks : ∃ asked, Adds (run q) (run (q + 1)) (.queried asked)

/-- The step at `a` is the last of the call made at `c`. -/
structure Concludes (run : Nat → Machine) (c a : Nat) : Prop where
  pending : Pending run c a
  finished : (run (a + 1)).stack.length ≤ (run c).stack.length

structure AsksReleased (m m' m'' : Machine) (id : LeaseId) (port : Port) : Prop where
  query : m''.trace = .queried (some port) :: m'.trace
  closed : m'.state? id = some .closed
  unregistered : ∀ p : Port, m'.pool.registry[p]? ≠ some id
  bit : m'.pool.taken.contains port = true ↔ ∃ other, other ≠ id ∧ m'.Live other port
  hooks : ∀ hook ∈ hooksOf m.pool id, m'.starts hook.number = 1 ∧ m'.ends hook.number = 1

structure VerifiesReleases (settings : Settings) (setting : Setting) (run : Nat → Machine) : Prop where
  atMostOnce : ∀ c id port q q', Checked settings setting run c id port → Serves run c q →
    Serves run c q' → q = q'
  once : ∀ c id port r, Checked settings setting run c id port → c < r →
    (run r).stack.length ≤ (run c).stack.length → ∃ q < r, Serves run c q
  only : ∀ q asked, Adds (run q) (run (q + 1)) (.queried asked) →
    ∃ c id port, Checked settings setting run c id port ∧ Serves run c q ∧
      ∀ c', Serves run c' q → c' = c
  about : ∀ c id port q, Checked settings setting run c id port → Serves run c q →
    AsksReleased (run c) (run q) (run (q + 1)) id port
  answered : ∀ c id port q r, Checked settings setting run c id port → Serves run c q → c < r →
    (run r).stack.length ≤ (run c).stack.length → ∃ a < r, Concludes run c a ∧ q < a ∧ ∃ records,
      (run (a + 1)).trace = (records.map Event.log).reverse ++
        ((((setting.table (run q).queries).query (some port)).log.map Event.log).reverse ++
          (run a).trace) ∧
      Reports port (setting.table (run q).queries).conclusive
        ((setting.table (run q).queries).query (some port)).sockets records
  silent : ∀ i record, record.isVerdict → Adds (run i) (run (i + 1)) (.log record) →
    ∃ c id port, Checked settings setting run c id port ∧ Concludes run c i

theorem IsRun.reachable (h : IsRun setting run) (n : Nat) : Reachable setting (run n) := by
  induction n with
  | zero =>
    rw [h.fresh]
    exact .fresh
  | succ n ih => exact ih.tail (h.move n)

theorem IsRun.leads (h : IsRun setting run) (hle : t ≤ r) : Leads setting (run t) (run r) := by
  induction r, hle using Nat.le_induction with
  | base => exact .refl
  | succ r _ ih => exact ih.tail (h.move r)

theorem Pending.of_succ (h : Pending run c (t + 1)) (hlt : c < t) : Pending run c t := by
  refine ⟨hlt, fun i hi hle => h.2 i hi ?_⟩
  omega

theorem Pending.succ (h : Pending run c t) (hdeep : (run c).stack.length < (run (t + 1)).stack.length) :
    Pending run c (t + 1) := by
  refine ⟨Nat.lt_succ_of_lt h.1, fun i hi hle => ?_⟩
  obtain hle | rfl := Nat.le_or_eq_of_le_succ hle
  · exact h.2 i hi hle
  · exact hdeep

theorem Deed.asks (hd : Deed setting m m') {asked : Option Port} (h : Adds m m' (.queried asked)) :
    ∃ lease port running failures rest,
      m.stack = .hooks lease port running [] failures (.close true) :: rest ∧
      setting.policy.checkRelease = true := by
  have hquiet {P : Prop} {events : List Event} (htrace : m'.trace = events ++ m.trace)
      (he : ∀ e ∈ events, e.isCalm ∨ e.isMark) : P := by
    have hnone : events.count (.queried asked) = 0 := by
      apply List.count_eq_zero.mpr
      intro hmem
      obtain hcalm | hmark := he _ hmem
      · cases hcalm
      · cases hmark
    rw [Adds, htrace, List.count_append, hnone] at h
    omega
  cases hd with
  | idle | lessen | register | late | stored | handedOver | bodyEnded =>
    exact absurd h (Nat.lt_irrefl _)
  | pass events _ _ _ _ he | grant events _ _ _ _ _ _ he | exhaust events _ _ _ _ _ he
  | share events _ _ _ _ _ he | settle events _ _ he => exact hquiet rfl fun e hmem => .inl (he e hmem)
  | ended =>
    refine hquiet (List.singleton_append).symm fun e hmem => .inl ?_
    rw [List.mem_singleton.mp hmem]
    rfl
  | hookEnded | hookStarted =>
    refine hquiet (List.singleton_append).symm fun e hmem => .inr ?_
    rw [List.mem_singleton.mp hmem]
    rfl
  | queried hs hcheck => exact ⟨_, _, _, _, _, hs, hcheck⟩

theorem IsRun.asks (h : IsRun setting run) {asked : Option Port}
    (hadds : Adds (run q) (run (q + 1)) (.queried asked)) :
    run (q + 1) = (run q).step setting ∧ setting.policy.checkRelease = true ∧
      ∃ lease port running failures rest,
        (run q).stack = .hooks lease port running [] failures (.close true) :: rest := by
  generalize hnext : run (q + 1) = m' at hadds
  have hmove : Move setting (run q) m' := hnext ▸ h.move q
  cases hmove with
  | step =>
    obtain ⟨lease, port, running, failures, rest, hs, hcheck⟩ :=
      Deed.asks (Machine.step_deed (h.reachable q).sound) hadds
    exact ⟨rfl, hcheck, lease, port, running, failures, rest, hs⟩
  | redirect todo =>
    rw [Adds, Machine.redirect_trace] at hadds
    exact absurd hadds (Nat.lt_irrefl _)

inductive UnderWay (id : LeaseId) (port : Port) (base : List Frame) : Option Nat → List Frame → Prop
  | waits (above : List Frame) {running : Nat} {todo : List Hook} {failures : List String} :
      UnderWay id port base none (above ++ .hooks id port running todo failures (.close true) :: base)
  | asked (above : List Frame) {query : Nat} {failures : List String} :
      UnderWay id port base (some query) (above ++ .check port query failures :: base)

inductive Advance (setting : Setting) (id : LeaseId) (port : Port) (base : List Frame)
    (m m' : Machine) : Option Nat → Prop
  | stays {query? : Option Nat} (h : UnderWay id port base query? m'.stack)
      (hquiet : m.stack.length = base.length + 1 → ∀ asked, ¬ Adds m m' (.queried asked)) :
      Advance setting id port base m m' query?
  | asks {running : Nat} {failures : List String}
      (hs : m.stack = .hooks id port running [] failures (.close true) :: base)
      (hm : m' = m.step setting) : Advance setting id port base m m' none
  | answers {query : Nat} {failures : List String} (hs : m.stack = .check port query failures :: base)
      (hm : m' = m.step setting) : Advance setting id port base m m' (some query)

theorem UnderWay.deeper {query? : Option Nat} {stack : List Frame}
    (h : UnderWay id port base query? stack) : base.length < stack.length := by
  cases h <;> simp only [List.length_append, List.length_cons] <;> omega

theorem UnderWay.step (hsound : m.Sound setting.policy) {query? : Option Nat}
    (h : UnderWay id port base query? m.stack) :
    Advance setting id port base m (m.step setting) query? := by
  have hd := Machine.step_deed hsound
  have hcovered {g f : Frame} {above : List Frame} (hs : m.stack = g :: (above ++ f :: base)) :
      m.stack.length ≠ base.length + 1 := by
    rw [hs]
    simp only [List.length_append, List.length_cons]
    omega
  generalize hs : m.stack = stack at h
  cases h with
  | @waits above running todo failures =>
    cases above with
    | nil =>
      cases todo with
      | nil => exact .asks hs rfl
      | cons hook todo =>
        rw [List.nil_append] at hs
        have hstep : (m.step setting).stack = .body hook.body (m.pool.current? port) ::
              .hooks id port hook.number todo failures (.close true) :: base ∧
            (m.step setting).trace = .hookStarted id hook.number hook.name port
              (m.pool.current? port) m.pool.takenCount :: m.trace := by
          simp only [Machine.step, hs, Machine.push, Machine.startHook_eq, and_self]
        refine .stays ?_ fun _ asked hadds => ?_
        · rw [hstep.1]
          exact .waits [_]
        · rw [Adds, hstep.2, List.count_cons_of_ne Event.noConfusion] at hadds
          exact absurd hadds (Nat.lt_irrefl _)
    | cons g above =>
      obtain ⟨above', f', hs', hcontinues⟩ := hd.above rfl hs
      refine .stays ?_ fun hlen => absurd hlen (hcovered hs)
      rw [hs']
      cases hcontinues with
      | refl => exact .waits above'
      | failed => exact .waits above'
  | @asked above query failures =>
    cases above with
    | nil => exact .answers hs rfl
    | cons g above =>
      obtain ⟨above', f', hs', hcontinues⟩ := hd.above rfl hs
      refine .stays ?_ fun hlen => absurd hlen (hcovered hs)
      rw [hs']
      cases hcontinues
      exact .asked above'

theorem UnderWay.redirect {query? : Option Nat} (h : UnderWay id port base query? m.stack)
    (todo : List Action) : UnderWay id port base query? (m.redirect todo).stack := by
  generalize hs : m.stack = stack at h
  cases h with
  | waits above =>
    obtain ⟨above', hs'⟩ := Machine.redirect_above rfl hs todo
    rw [hs']
    exact .waits above'
  | asked above =>
    obtain ⟨above', hs'⟩ := Machine.redirect_above rfl hs todo
    rw [hs']
    exact .asked above'

theorem IsRun.advance (hrun : IsRun setting run) {query? : Option Nat}
    (h : UnderWay id port base query? (run t).stack) :
    Advance setting id port base (run t) (run (t + 1)) query? := by
  generalize hnext : run (t + 1) = m'
  have hmove : Move setting (run t) m' := hnext ▸ hrun.move t
  cases hmove with
  | step => exact h.step (hrun.reachable t).sound
  | redirect todo =>
    refine .stays (h.redirect todo) fun _ asked hadds => ?_
    rw [Adds, Machine.redirect_trace] at hadds
    exact absurd hadds (Nat.lt_irrefl _)

structure AsksAt (setting : Setting) (run : Nat → Machine) (c q : Nat) (id : LeaseId) (port : Port)
    (base : List Frame) : Prop where
  serves : Serves run c q
  stack : ∃ running failures, (run q).stack = .hooks id port running [] failures (.close true) :: base
  step : run (q + 1) = (run q).step setting
  first : ∀ q' < q, ¬ Serves run c q'

inductive Progress (setting : Setting) (run : Nat → Machine) (c t : Nat) (id : LeaseId) (port : Port)
    (base : List Frame) : Prop
  | waits (h : UnderWay id port base none (run t).stack) (hnone : ∀ q < t, ¬ Serves run c q)
  | asked {q : Nat} (hlt : q < t) (hasks : AsksAt setting run c q id port base)
      (h : UnderWay id port base (some (run q).queries) (run t).stack)

theorem exists_concludes (hfirst : (run c).stack.length < (run (c + 1)).stack.length)
    (hlt : c < r) (hover : (run r).stack.length ≤ (run c).stack.length) :
    ∃ a < r, Concludes run c a := by
  have hboth : Pending run c r ∨ ∃ a < r, Concludes run c a := by
    clear hover
    induction r, hlt using Nat.le_induction with
    | base =>
      refine .inl ⟨Nat.lt_succ_self c, fun i hi hle => ?_⟩
      obtain rfl : i = c + 1 := by omega
      exact hfirst
    | succ r hle ih =>
      obtain hp | ⟨a, ha, hc⟩ := ih
      · by_cases hdeep : (run c).stack.length < (run (r + 1)).stack.length
        · exact .inl (hp.succ hdeep)
        · exact .inr ⟨r, Nat.lt_succ_self r, hp, Nat.not_lt.mp hdeep⟩
      · exact .inr ⟨a, Nat.lt_succ_of_lt ha, hc⟩
  obtain hp | hc := hboth
  · exact absurd (hp.2 r hp.1 le_rfl) (Nat.not_lt.mpr hover)
  · exact hc

section Run

variable (hrun : IsRun setting run)

include hrun

theorem IsRun.progress (hcheck : setting.policy.checkRelease = true)
    (hfirst : UnderWay id port base none (run (c + 1)).stack)
    (hlen : (run c).stack.length = base.length) (hp : Pending run c t) :
    Progress setting run c t id port base := by
  induction t with
  | zero => exact absurd hp.1 (Nat.not_lt_zero c)
  | succ t ih =>
    obtain heq | hlt := Nat.eq_or_lt_of_le (Nat.le_of_lt_succ hp.1)
    · subst heq
      refine .waits hfirst fun q hq hserves => ?_
      have hlt := hserves.pending.1
      omega
    · have hp' := hp.of_succ hlt
      cases ih hp' with
      | waits h hnone =>
        cases hrun.advance h with
        | stays h' hquiet =>
          refine .waits h' fun q hq hserves => ?_
          obtain hq | rfl := Nat.lt_succ_iff_lt_or_eq.mp hq
          · exact hnone q hq hserves
          · obtain ⟨asked, hadds⟩ := hserves.asks
            exact hquiet (hlen ▸ hserves.level) asked hadds
        | asks hs hm =>
          rw [Machine.step_asks hcheck hs] at hm
          have hserves : Serves run c t := by
            refine ⟨hp', ?_, some port, ?_⟩
            · rw [hs, hlen, List.length_cons]
            · rw [Adds, hm, List.count_cons_self]
              exact Nat.lt_succ_self _
          refine .asked (Nat.lt_succ_self t) ⟨hserves, ⟨_, _, hs⟩, ?_, hnone⟩ ?_
          · rw [Machine.step_asks hcheck hs]
            exact hm
          · rw [hm]
            exact .asked [_]
      | asked hq hasks h =>
        cases hrun.advance h with
        | stays h' => exact .asked (Nat.lt_succ_of_lt hq) hasks h'
        | answers hs hm =>
          have hdeep := hp.2 (t + 1) hp.1 le_rfl
          rw [hm, Machine.step_answers hs, hlen] at hdeep
          simp only [length_settled] at hdeep
          exact absurd hdeep (Nat.lt_irrefl _)

theorem IsRun.progress_serves (hlen : (run c).stack.length = base.length)
    (h : Progress setting run c q id port base) (hserves : Serves run c q) :
    AsksAt setting run c q id port base := by
  obtain ⟨asked, hadds⟩ := hserves.asks
  obtain ⟨hstep, -, lease, port', running, failures, rest, hs⟩ := hrun.asks hadds
  have hlevel := hserves.level
  rw [hlen] at hlevel
  have htop {above : List Frame} {f : Frame} (hf : (run q).stack = above ++ f :: base) :
      Frame.hooks lease port' running [] failures (.close true) = f ∧ rest = base := by
    cases above with
    | nil => exact List.cons.inj (hs.symm.trans hf)
    | cons g above =>
      rw [hf] at hlevel
      simp only [List.length_append, List.length_cons] at hlevel
      omega
  cases h with
  | waits h hnone =>
    generalize hstack : (run q).stack = stack at h
    cases h with
    | waits above =>
      obtain ⟨hf, rfl⟩ := htop hstack
      cases hf
      exact ⟨hserves, ⟨_, _, hs⟩, hstep, hnone⟩
  | asked hlt hasks h =>
    generalize hstack : (run q).stack = stack at h
    cases h with
    | asked above => cases (htop hstack).1

theorem IsRun.concluded (hcheck : setting.policy.checkRelease = true)
    (hlen : (run c).stack.length = base.length) {a : Nat}
    (h : Progress setting run c a id port base) (hc : Concludes run c a) :
    ∃ q < a, AsksAt setting run c q id port base ∧ ∃ failures,
      (run a).stack = .check port (run q).queries failures :: base ∧
        run (a + 1) = (run a).step setting := by
  have hover := hc.finished
  rw [hlen] at hover
  cases h with
  | waits h hnone =>
    cases hrun.advance h with
    | stays h' => exact absurd h'.deeper (Nat.not_lt.mpr hover)
    | asks hs hm =>
      rw [hm, Machine.step_asks hcheck hs] at hover
      simp only [List.length_cons] at hover
      omega
  | asked hlt hasks h =>
    cases hrun.advance h with
    | stays h' => exact absurd h'.deeper (Nat.not_lt.mpr hover)
    | answers hs hm => exact ⟨_, hlt, hasks, _, hs, hm⟩

end Run

inductive Frame.Checks (port : Port) : Frame → Prop
  | hooks {id : LeaseId} {running : Nat} {todo : List Hook} {failures : List String} :
      Checks port (.hooks id port running todo failures (.close true))
  | check {query : Nat} {failures : List String} : Checks port (.check port query failures)

theorem Frame.Checks.isPlain {f : Frame} (hf : f.Checks port) : f.isPlain = false := by
  cases hf <;> rfl

theorem suffix_of_isPlain {f g : Frame} {rest : List Frame} (hf : f.isPlain = false) (hg : g.isPlain)
    (h : f :: base <:+ g :: rest) : f :: base <:+ rest := by
  obtain heq | h := List.suffix_cons_iff.mp h
  · obtain ⟨rfl, -⟩ := List.cons.inj heq
    rw [hf] at hg
    cases hg
  · exact h

theorem suffix_settled {f g : Frame} {rest : List Frame} (hf : f.isPlain = false)
    (h : f :: base <:+ settled g rest) : f :: base <:+ rest := by
  unfold settled at h
  split at h
  · split at h
    · exact h
    · exact (suffix_of_isPlain hf rfl h).trans (List.suffix_cons _ _)
  · exact h

theorem Deed.checks (hd : Deed setting m m') {f : Frame} (hf : f.Checks port)
    (h : f :: base <:+ m'.stack) :
    (∃ f', f'.Checks port ∧ f' :: base <:+ m.stack) ∨
      ∃ id, m.Closes id true base ∧
        ∃ l, m.pool.lease? id = some l ∧ l.state = .held ∧ l.port = port := by
  have hplain := hf.isPlain
  have hbelow {g : Frame} {rest : List Frame} (hs : m.stack = g :: rest) (h : f :: base <:+ rest) :
      ∃ f', f'.Checks port ∧ f' :: base <:+ m.stack :=
    ⟨f, hf, hs ▸ h.trans (List.suffix_cons g rest)⟩
  have htop {g : Frame} (hs : m.stack = g :: base) (hg : g.Checks port) :
      ∃ f', f'.Checks port ∧ f' :: base <:+ m.stack := ⟨g, hg, hs ▸ List.suffix_refl _⟩
  cases hd with
  | idle => exact .inl ⟨f, hf, h⟩
  | pass _ hs _ hf' | exhaust _ hs _ hf' =>
    exact .inl (hbelow hs (suffix_of_isPlain hplain (Frame.isPlain_of_isCode hf') h))
  | grant _ hs _ hf' | share _ hs _ hf' =>
    have h' := suffix_of_isPlain hplain rfl h
    exact .inl (hbelow hs (suffix_of_isPlain hplain (Frame.isPlain_of_isCode hf') h'))
  | lessen hs _ hf' | stored hs _ hf' => exact .inl (hbelow hs (suffix_of_isPlain hplain hf' h))
  | register hs => exact .inl (hbelow hs (suffix_of_isPlain hplain rfl h))
  | handedOver hs | bodyEnded hs => exact .inl (hbelow hs h)
  | settle _ hs => exact .inl (hbelow hs (suffix_settled hplain h))
  | ended hs _ hf' _ _ hl hheld _ hcause =>
    obtain heq | h := List.suffix_cons_iff.mp h
    · obtain ⟨rfl, rfl⟩ := List.cons.inj heq
      cases hf
      cases hcause with
      | close hcloses => exact .inr ⟨_, hcloses, _, hl, hheld, rfl⟩
    · exact .inl (hbelow hs (suffix_of_isPlain hplain hf' h))
  | late hs =>
    obtain heq | h := List.suffix_cons_iff.mp h
    · obtain ⟨rfl, -⟩ := List.cons.inj heq
      cases hf
    · exact .inl (hbelow hs (suffix_of_isPlain hplain rfl h))
  | hookEnded hs =>
    left
    obtain heq | h := List.suffix_cons_iff.mp h
    · obtain ⟨rfl, rfl⟩ := List.cons.inj heq
      cases hf
      exact ⟨_, .hooks, hs ▸ List.suffix_cons _ _⟩
    · exact hbelow hs (h.trans (List.suffix_cons _ _))
  | hookStarted hs =>
    left
    obtain heq | h := List.suffix_cons_iff.mp (suffix_of_isPlain hplain rfl h)
    · obtain ⟨rfl, rfl⟩ := List.cons.inj heq
      cases hf
      exact htop hs .hooks
    · exact hbelow hs h
  | queried hs =>
    left
    obtain heq | h := List.suffix_cons_iff.mp (suffix_of_isPlain hplain rfl h)
    · obtain ⟨rfl, rfl⟩ := List.cons.inj heq
      cases hf
      exact htop hs .hooks
    · exact hbelow hs h

theorem Machine.suffix_redirect {f : Frame} (hf : f.isPlain = false) {todo : List Action}
    (h : f :: base <:+ (m.redirect todo).stack) : f :: base <:+ m.stack := by
  unfold redirect at h
  split at h
  · rename_i hs
    rw [start, push, hs] at h
    cases List.suffix_nil.mp (suffix_of_isPlain hf rfl h)
  · rename_i hs
    rw [hs]
    exact (suffix_of_isPlain hf rfl h).trans (List.suffix_cons _ _)
  · rename_i hs
    rw [hs]
    exact (suffix_of_isPlain hf rfl h).trans (List.suffix_cons _ _)
  · exact h

theorem IsRun.origin (hrun : IsRun setting run) {f : Frame} (hf : f.Checks port)
    (h : f :: base <:+ (run t).stack) :
    ∃ c id, Pending run c t ∧ run (c + 1) = (run c).step setting ∧ (run c).Closes id true base ∧
      ∃ l, (run c).pool.lease? id = some l ∧ l.state = .held ∧ l.port = port := by
  induction t generalizing f with
  | zero =>
    rw [hrun.fresh] at h
    cases List.suffix_nil.mp h
  | succ t ih =>
    have hdeep : base.length < (run (t + 1)).stack.length := h.length_le
    have hold : (∃ f', f'.Checks port ∧ f' :: base <:+ (run t).stack) ∨
        run (t + 1) = (run t).step setting ∧ ∃ id, (run t).Closes id true base ∧
          ∃ l, (run t).pool.lease? id = some l ∧ l.state = .held ∧ l.port = port := by
      clear hdeep
      generalize hnext : run (t + 1) = m' at h
      have hmove : Move setting (run t) m' := hnext ▸ hrun.move t
      cases hmove with
      | step =>
        have hd := Machine.step_deed (hrun.reachable t).sound
        exact (hd.checks hf h).imp_right fun hnew => ⟨rfl, hnew⟩
      | redirect todo => exact .inl ⟨f, hf, Machine.suffix_redirect hf.isPlain h⟩
    obtain ⟨f', hf', h'⟩ | ⟨hstep, id, hcloses, hheld⟩ := hold
    · obtain ⟨c, id, hp, hstep, hcloses, hheld⟩ := ih hf' h'
      rw [← hcloses.length] at hdeep
      exact ⟨c, id, hp.succ hdeep, hstep, hcloses, hheld⟩
    · refine ⟨t, id, ⟨Nat.lt_succ_self t, fun i hi hle => ?_⟩, hstep, hcloses, hheld⟩
      obtain rfl : i = t + 1 := by omega
      rw [hcloses.length]
      exact hdeep

theorem Reachable.no_check (h : Reachable setting m) (hno : setting.policy.checkRelease = false) :
    ∀ f ∈ m.stack, f.isCheck = false := by
  induction h with
  | refl =>
    intro f hf
    cases hf
  | tail hm hmove ih =>
    cases hmove with
    | step =>
      have hd := Machine.step_deed (Reachable.sound hm)
      obtain hnone | ⟨_, _, _, _, _, -, hcheck⟩ := Machine.between_deed hd ih
      · exact hnone
      · rw [hno] at hcheck
        cases hcheck
    | redirect todo =>
      intro f hf
      by_contra hcheck
      have hplain : f.isPlain = false := by
        cases f <;> first | rfl | exact absurd rfl hcheck
      obtain ⟨above, base, hs⟩ := List.append_of_mem hf
      have hsuffix : f :: base <:+ (Machine.redirect _ todo).stack := hs ▸ List.suffix_append above _
      exact hcheck (ih f ((Machine.suffix_redirect hplain hsuffix).mem List.mem_cons_self))

theorem count_verdicts {record : LogRecord} (h : record.isVerdict) (m : Machine) :
    m.trace.count (.log record) = m.verdicts.count record := by
  rw [Machine.verdicts, List.count_filterMap, List.count_eq_countP]
  apply List.countP_congr
  intro e _
  cases e with
  | log other =>
    by_cases heq : other = record
    · simp [heq, Event.verdict?, h]
    · have hne : (Event.log other).verdict? ≠ some record := by
        simp only [Event.verdict?]
        split <;> simp [heq]
      simp [heq, hne]
  | _ => rfl

theorem IsRun.answers (hrun : IsRun setting run) {record : LogRecord} (hverdict : record.isVerdict)
    (hadds : Adds (run t) (run (t + 1)) (.log record)) :
    run (t + 1) = (run t).step setting ∧
      ∃ port query failures base, (run t).stack = .check port query failures :: base := by
  rw [Adds, count_verdicts hverdict, count_verdicts hverdict] at hadds
  generalize hnext : run (t + 1) = m' at hadds
  have hmove : Move setting (run t) m' := hnext ▸ hrun.move t
  cases hmove with
  | step =>
    refine ⟨rfl, ?_⟩
    by_contra hnone
    rw [Machine.verdicts_step] at hadds
    · exact Nat.lt_irrefl _ hadds
    · intro port query failures rest hs
      exact hnone ⟨port, query, failures, rest, hs⟩
  | redirect todo =>
    rw [Machine.verdicts, Machine.verdicts, Machine.redirect_trace] at hadds
    exact absurd hadds (Nat.lt_irrefl _)

theorem Clear.top {lease : LeaseId} {running n : Nat} {failures : List String} {occasion : Occasion}
    (h : Clear base.length n m) (hs : m.stack = .hooks lease port running [] failures occasion :: base) :
    Clear (base.length + 1) n m := by
  constructor
  · intro q hq _
    rw [Machine.queues_eq, hs, queues, List.mem_append] at hq
    obtain hq | hq := hq
    · obtain rfl := Option.some.inj (Option.mem_toList.mp hq)
      intro hook hmem
      cases hmem
    · refine h.todo q ?_ (depth_lt_of_mem_queues hq)
      rw [Machine.queues_eq, hs, queues]
      exact List.mem_append_right _ hq
  · intro q hq _
    have hq' := hq
    rw [Machine.running_cons hs] at hq'
    exact h.running q hq (depth_lt_of_mem_queues hq')

theorem Checked.closed (h : Checked settings setting run c id port) :
    (run (c + 1)).state? id = some .closed := by
  obtain ⟨below, hcloses⟩ := h.closes
  obtain ⟨l, hl, hheld, -⟩ := h.held
  rw [h.step]
  apply hcloses.closed
  rw [Machine.state?, hl, Option.map_some, hheld]

theorem checkRelease_iff {excluded : PortRange} (hpolicy : setting.policy = settings.policy excluded) :
    setting.policy.checkRelease = true ↔
      settings.disableReleaseCheck = false ∧ settings.envDisableReleaseCheck = false := by
  rw [hpolicy, Settings.policy, Settings.releaseCheckDisabled]
  simp

section Checked

variable (hrun : IsRun setting run) (hcheck : setting.policy.checkRelease = true)
include hrun hcheck

theorem Checked.progress (h : Checked settings setting run c id port) :
    ∃ base, (run c).stack.length = base.length ∧ base.length < (run (c + 1)).stack.length ∧
      ∀ t, Pending run c t → Progress setting run c t id port base := by
  obtain ⟨base, hcloses⟩ := h.closes
  have hfirst : UnderWay id port base none (run (c + 1)).stack := by
    obtain ⟨l, hl, hheld, rfl⟩ := h.held
    rw [h.step, hcloses.step_held hl hheld]
    exact .waits []
  exact ⟨base, hcloses.length, hfirst.deeper, fun t => hrun.progress hcheck hfirst hcloses.length⟩

theorem Checked.asksAt (h : Checked settings setting run c id port) (hq : Serves run c q) :
    ∃ base, (run c).stack.length = base.length ∧ AsksAt setting run c q id port base := by
  obtain ⟨base, hlen, -, hall⟩ := h.progress hrun hcheck
  exact ⟨base, hlen, hrun.progress_serves hlen (hall q hq.pending) hq⟩

theorem Checked.serves_unique (h : Checked settings setting run c id port) {q' : Nat}
    (hq : Serves run c q) (hq' : Serves run c q') : q = q' := by
  obtain ⟨_, -, hasks⟩ := h.asksAt hrun hcheck hq
  obtain ⟨_, -, hasks'⟩ := h.asksAt hrun hcheck hq'
  obtain hlt | rfl | hlt := Nat.lt_trichotomy q q'
  · exact (hasks'.first q hlt hq).elim
  · rfl
  · exact (hasks.first q' hlt hq').elim

theorem Checked.concludes (h : Checked settings setting run c id port) (hlt : c < r)
    (hover : (run r).stack.length ≤ (run c).stack.length) :
    ∃ a < r, Concludes run c a ∧ ∃ q < a, Serves run c q ∧ ∃ base failures,
      (run a).stack = .check port (run q).queries failures :: base ∧
        run (a + 1) = (run a).step setting := by
  obtain ⟨base, hlen, hfirst, hall⟩ := h.progress hrun hcheck
  obtain ⟨a, ha, hc⟩ := exists_concludes (hlen ▸ hfirst) hlt hover
  obtain ⟨q, hq, hasks, failures, hs, hstep⟩ := hrun.concluded hcheck hlen (hall a hc.pending) hc
  exact ⟨a, ha, hc, q, hq, hasks.serves, base, failures, hs, hstep⟩

theorem Checked.hook_ended {hook : Hook} (h : Checked settings setting run c id port)
    (hserves : Serves run c q) (hmem : hook ∈ hooksOf (run c).pool id) :
    (run q).starts hook.number = 1 ∧ (run q).ends hook.number = 1 := by
  obtain ⟨base, hlen, hasks⟩ := h.asksAt hrun hcheck hserves
  obtain ⟨running, failures, hs⟩ := hasks.stack
  have hleads : Leads setting (run (c + 1)) (run q) := hrun.leads hserves.pending.1
  -- the hook waits when the close begins, and can be nowhere but among those that have ended
  have hr := hrun.reachable c
  have hr' := hrun.reachable (c + 1)
  have hkept : Kept id hook (run c) := hr.kept (.inl hmem)
  have hheld : (run c).Held id := hkept.held.mpr hmem
  have hturn := Reachable.turn hr (hrun.move c)
  have hkept' := hkept.shift hturn.shift
  have hover : ¬ (run (c + 1)).Held id := by
    rintro ⟨l, hl, hstate⟩
    have hclosed := h.closed
    rw [Machine.state?, hl, Option.map_some, hstate] at hclosed
    cases hclosed
  have hclear : Clear (run c).stack.length hook.number (run (c + 1)) :=
    (clear_of_line (hkept.line_held hheld) (hkept.starts_held hheld) hr).turn hturn (.inl le_rfl)
  have hclear' := hkept'.clear_leads hr' hover hclear hleads
  rw [hlen] at hclear'
  apply (hkept'.leads hr' hleads).returned (hrun.reachable q) (hkept'.over_leads hr' hover hleads)
    (hclear'.top hs)
  rw [hs, List.length_cons]

theorem Checked.asksReleased (h : Checked settings setting run c id port) (hserves : Serves run c q) :
    AsksReleased (run c) (run q) (run (q + 1)) id port := by
  obtain ⟨base, hlen, hasks⟩ := h.asksAt hrun hcheck hserves
  obtain ⟨running, failures, hs⟩ := hasks.stack
  have hleads : Leads setting (run (c + 1)) (run q) := hrun.leads hserves.pending.1
  have hclosed : (run q).state? id = some .closed :=
    (hrun.reachable (c + 1)).stays_over h.closed (by decide) hleads
  obtain ⟨l, hl, hstate⟩ := Machine.state?_eq_some hclosed
  obtain ⟨hunregistered, hbit⟩ := (hrun.reachable q).sound.freed hl (by rw [hstate]; decide)
  refine ⟨?_, hclosed, hunregistered, hbit port, ?_⟩
  · rw [hasks.step, Machine.step_asks hcheck hs]
  · intro hook hmem
    exact h.hook_ended hrun hcheck hserves hmem

end Checked

theorem Serves.caller_unique {c' : Nat} (h : Serves run c q) (h' : Serves run c' q) : c' = c := by
  have hlevel := h.level
  have hlevel' := h'.level
  obtain hlt | rfl | hlt := Nat.lt_trichotomy c' c
  · have hdeep := h'.pending.2 c hlt (Nat.le_of_lt h.pending.1)
    omega
  · rfl
  · have hdeep := h.pending.2 c' hlt (Nat.le_of_lt h'.pending.1)
    omega

theorem verifies_releases {excluded : PortRange} (hpolicy : setting.policy = settings.policy excluded)
    (hrun : IsRun setting run) : VerifiesReleases settings setting run := by
  have hcheck {c : Nat} {id : LeaseId} {port : Port} (h : Checked settings setting run c id port) :
      setting.policy.checkRelease = true := (checkRelease_iff hpolicy).mpr h.allowed
  constructor
  case atMostOnce =>
    intro c id port q q' h hq hq'
    exact h.serves_unique hrun (hcheck h) hq hq'
  case once =>
    intro c id port r h hlt hover
    obtain ⟨a, ha, -, q, hq, hserves, -⟩ := h.concludes hrun (hcheck h) hlt hover
    exact ⟨q, Nat.lt_trans hq ha, hserves⟩
  case only =>
    intro q asked hadds
    obtain ⟨hstep, hchecks, lease, port, running, failures, base, hs⟩ := hrun.asks hadds
    obtain ⟨c, id, hp, hclose, hcloses, hheld⟩ := hrun.origin .hooks ⟨[], hs.symm⟩
    have hserves : Serves run c q := by
      refine ⟨hp, ?_, asked, hadds⟩
      rw [hcloses.length, hs, List.length_cons]
    have hallowed := (checkRelease_iff hpolicy).mp hchecks
    exact ⟨c, id, port, ⟨⟨base, hcloses⟩, hclose, hheld, hallowed⟩, hserves,
      fun c' => hserves.caller_unique⟩
  case about =>
    intro c id port q h hserves
    exact h.asksReleased hrun (hcheck h) hserves
  case answered =>
    intro c id port q r h hserves hreturned hover
    obtain ⟨a, ha, hc, q', hlt, hserves', base, failures, hs, hstep⟩ :=
      h.concludes hrun (hcheck h) hreturned hover
    obtain rfl := h.serves_unique hrun (hcheck h) hserves hserves'
    refine ⟨a, ha, hc, hlt, _, ?_, reports_verdict _ _ _⟩
    rw [hstep, Machine.step_answers hs]
  case silent =>
    intro i record hverdict hadds
    obtain ⟨hstep, port, query, failures, base, hs⟩ := hrun.answers hverdict hadds
    obtain ⟨c, id, hp, hclose, hcloses, hheld⟩ := hrun.origin .check ⟨[], hs.symm⟩
    have hchecks : setting.policy.checkRelease = true := by
      by_contra hno
      have hnone := (hrun.reachable i).no_check (Bool.eq_false_iff.mpr hno) _ (hs ▸ List.mem_cons_self)
      cases hnone
    have hallowed := (checkRelease_iff hpolicy).mp hchecks
    refine ⟨c, id, port, ⟨⟨base, hcloses⟩, hclose, hheld, hallowed⟩, hp, ?_⟩
    rw [hstep, Machine.step_answers hs, hcloses.length]
    exact Nat.le_of_eq (length_settled _ _)

def Setting.leaking : Setting := .ofSettings {} {
  sockets := .ok [⟨7, none, "TCP", "*", 5001, none, some .listen⟩] }

def closesWithin : Nat → Machine
  | 0 => {}
  | n + 1 => (Machine.step .leaking)^[n] (({} : Machine).start [.reserve 5000 (some "a"),
      .reserve 5001 (some "b"), .onClose "a" "h" [.close "b" true], .close "a" true])

theorem verifies_releases_within :
    Setting.leaking.policy = Settings.policy {} ⟨32768, 60999⟩ ∧ IsRun .leaking closesWithin ∧
      VerifiesReleases {} .leaking closesWithin ∧
      Checked {} .leaking closesWithin 8 1 5000 ∧ Checked {} .leaking closesWithin 10 2 5001 ∧
      (closesWithin 23).queries = 2 ∧ (closesWithin 23).stack.length = 0 := by
  have hrun : IsRun .leaking closesWithin := by
    refine ⟨rfl, fun n => ?_⟩
    cases n with
    | zero => exact .redirect {} _
    | succ n =>
      have hnext : closesWithin (n + 2) = (closesWithin (n + 1)).step .leaking :=
        Function.iterate_succ_apply' _ _ _
      rw [hnext]
      exact .step _
  refine ⟨rfl, hrun, verifies_releases rfl hrun, ?_, ?_, by decide +kernel, by decide +kernel⟩
  · refine ⟨⟨_, .slot rfl rfl⟩, rfl, ⟨_, rfl, rfl, rfl⟩, rfl, rfl⟩
  · refine ⟨⟨_, .slot rfl rfl⟩, rfl, ⟨_, rfl, rfl, rfl⟩, rfl, rfl⟩

end PortLease.Script
