import Mathlib.Tactic.IntervalCases
import PortLease.Proofs.PortTable
import PortLease.Proofs.Script.Verification
import PortLease.Proofs.Socket.Listeners

namespace PortLease

open FieldLines

variable {port : Port} {host : Host} {program : String} {reply : ToolReply}

def FieldLines.IsListing (bytes : List UInt8) (sets : List ProcessSet) : Prop :=
  content (Text.byteLines bytes) = sets.flatMap ProcessSet.lines ∧ ∃ sockets, SetsList sets sockets

namespace PortTable

open Script (listening)

theorem query_ofTool (h : host program (arguments (some port)) = .ok reply) :
    (ofTool host program).query (some port) =
      { ofOutput program (selector (some port)) (.ofReply reply) with
        sockets := (ofOutput program (selector (some port)) (.ofReply reply)).sockets.map
          (onPort (some port)) } := by
  simp only [ofTool, Host.run, h]

theorem listening_ofTool {sets : List ProcessSet}
    (h : host program (arguments (some port)) = .ok reply) (hstatus : reply.status = .exited 0)
    (hlisting : content (Text.byteLines reply.stdout) = sets.flatMap ProcessSet.lines)
    {sockets : List Socket} (hsets : SetsList sets sockets) :
    listening ((ofTool host program).query (some port)).sockets = listenersOn port sockets := by
  have hread : read (ToolOutput.ofReply reply).stdout = .ok sockets :=
    read_splitLines.mpr ⟨sets, hlisting, hsets⟩
  rw [query_ofTool h, ofOutput, if_pos (succeeded_ofReply.mpr hstatus), hread]
  rfl

theorem listening_none (h : ¬ ∃ reply sets, host program (arguments (some port)) = .ok reply ∧
      reply.status = .exited 0 ∧ IsListing reply.stdout sets) :
    listening ((ofTool host program).query (some port)).sockets = [] := by
  cases hreply : host program (arguments (some port)) with
  | error fault => simp only [ofTool, Host.run, hreply, listening]
  | ok reply =>
    rw [query_ofTool hreply]
    unfold ofOutput
    split
    · rename_i hsucceeded
      cases hread : read (ToolOutput.ofReply reply).stdout with
      | error malformed => rfl
      | ok sockets =>
        obtain ⟨sets, hlisting, hsets⟩ := read_splitLines.mp hread
        exact absurd ⟨reply, sets, hreply, succeeded_ofReply.mp hsucceeded, hlisting, sockets, hsets⟩ h
    · split <;> rfl

theorem level_ofTool : ∀ record ∈ ((ofTool host program).query (some port)).log,
    record.level = .debug := by
  intro record hmem
  cases hreply : host program (arguments (some port)) with
  | error fault =>
    simp only [ofTool, Host.run, hreply] at hmem
    cases hmem
  | ok reply =>
    rw [query_ofTool hreply] at hmem
    unfold ofOutput at hmem
    split at hmem
    · split at hmem
      · cases hmem
      · rw [List.mem_singleton.mp hmem]
        rfl
    · split at hmem <;> cases hmem

end PortTable

namespace Script

variable {settings : Settings} {setting : Setting} {m : Machine} {id : LeaseId} {below : List Frame}

def Event.error? : Event → Option LogRecord
  | .log record => if record.level = .error then some record else none
  | _ => none

/-- The call that the next step makes returns to `below`, and these are the errors that it logs. -/
def Machine.LogsErrors (setting : Setting) (m : Machine) (below : List Frame)
    (errors : List LogRecord) : Prop :=
  ∃ (n : Nat) (events : List Event), 0 < n ∧ (m.run setting n).stack = below ∧
    (∀ k, 0 < k → k < n → below.length < (m.run setting k).stack.length) ∧
    (m.run setting n).trace = events.reverse ++ m.trace ∧ events.filterMap Event.error? = errors

structure ReportsLeaks (setting : Setting) (m : Machine) (below : List Frame) (port : Port)
    (answer : Except LaunchFault ToolReply) : Prop where
  leaks : ∀ reply sets, answer = .ok reply → reply.status = .exited 0 → IsListing reply.stdout sets →
    ∃ errors, m.LogsErrors setting below errors ∧ Leaks port (filesOf sets) errors
  otherwise : (¬ ∃ reply sets, answer = .ok reply ∧ reply.status = .exited 0 ∧
    IsListing reply.stdout sets) → m.LogsErrors setting below []

theorem settled_nil (port : Port) (query : Nat) :
    settled (.check port query []) below = below := by
  unfold settled
  split
  · rename_i hreport
    cases hreport
    rfl
  · rfl

theorem error?_records (records : List LogRecord) : (records.map Event.log).filterMap Event.error? =
    records.filter fun record => record.level = .error := by
  rw [List.filterMap_map, ← List.filterMap_eq_filter]
  apply List.filterMap_congr
  intro record _
  simp [Event.error?, Option.guard]

theorem Machine.Closes.logsErrors (hcheck : setting.policy.checkRelease = true)
    (hreaction : setting.reaction = []) (hcloses : m.Closes id true below) {l : Lease Hook}
    (hl : m.pool.lease? id = some l) (hheld : l.state = .held) (hhooks : l.hooks = [])
    (hlog : ∀ record ∈ ((setting.table m.queries).query (some l.port)).log, record.level = .debug) :
    m.LogsErrors setting below
      ((listening ((setting.table m.queries).query (some l.port)).sockets).map
        (.stillListening l.port)) := by
  generalize hanswer : (setting.table m.queries).query (some l.port) = answer at hlog ⊢
  -- the close, the end of its hooks, two steps of a reaction that does nothing, the answer
  have hfirst : ∃ pool, (Machine.step setting)^[1] m = { m with
      pool, stack := .hooks id l.port 0 [] [] (.close true) :: below
      trace := .log (.released l.port id) :: m.trace } := by
    refine ⟨(m.pool.update id (Pool.finished .closed)).release id l.port, ?_⟩
    rw [Function.iterate_one, hcloses.step_held hl hheld, hhooks]
  obtain ⟨pool, hfirst⟩ := hfirst
  have hsecond : (Machine.step setting)^[2] m = { m with
      pool, queries := m.queries + 1
      stack := .body [] none :: .check l.port m.queries [] :: below
      trace := .queried (some l.port) :: .log (.released l.port id) :: m.trace } := by
    rw [Function.iterate_succ_apply', hfirst, Machine.step_asks hcheck rfl, hreaction]
  have hthird : (Machine.step setting)^[3] m = { m with
      pool, queries := m.queries + 1
      stack := .ending none none :: .check l.port m.queries [] :: below
      trace := .queried (some l.port) :: .log (.released l.port id) :: m.trace } := by
    rw [Function.iterate_succ_apply', hsecond]
    rfl
  have hfourth : (Machine.step setting)^[4] m = { m with
      pool, queries := m.queries + 1, stack := .check l.port m.queries [] :: below
      trace := .queried (some l.port) :: .log (.released l.port id) :: m.trace } := by
    rw [Function.iterate_succ_apply', hthird]
    rfl
  have hfifth : (Machine.step setting)^[5] m = { m with
      pool, queries := m.queries + 1, stack := settled (.check l.port m.queries []) below
      trace := ((verdict l.port (setting.table m.queries).conclusive answer.sockets).map
          Event.log).reverse ++ ((answer.log.map Event.log).reverse ++
            .queried (some l.port) :: .log (.released l.port id) :: m.trace) } := by
    rw [Function.iterate_succ_apply', hfourth, Machine.step_answers rfl, ← hanswer]
  have hdeep (f : Frame) (above : List Frame) : below.length < (f :: (above ++ below)).length := by
    simp only [List.length_cons, List.length_append]
    omega
  refine ⟨5, .log (.released l.port id) :: .queried (some l.port) :: (answer.log.map Event.log ++
    (verdict l.port (setting.table m.queries).conclusive answer.sockets).map Event.log),
    by omega, ?_, ?_, ?_, ?_⟩
  · rw [Machine.run_eq_iterate, hfifth]
    exact settled_nil _ _
  · intro k hpos hlt
    rw [Machine.run_eq_iterate]
    interval_cases k
    · rw [hfirst]
      exact hdeep _ []
    · rw [hsecond]
      exact hdeep _ [_]
    · rw [hthird]
      exact hdeep _ [_]
    · rw [hfourth]
      exact hdeep _ []
  · rw [Machine.run_eq_iterate, hfifth]
    simp
  · have hnone : answer.log.filter (fun record => record.level = .error) = [] := by
      apply List.filter_eq_nil_iff.mpr
      intro record hmem
      rw [hlog record hmem]
      decide
    have hreports := reports_verdict l.port (setting.table m.queries).conclusive answer.sockets
    rw [List.filterMap_cons_none rfl, List.filterMap_cons_none rfl, List.filterMap_append,
      error?_records, error?_records, hnone, hreports.errors, List.nil_append]

theorem leak_report {excluded : PortRange} {host : Host} {program : String} {l : Lease Hook}
    (hpolicy : setting.policy = settings.policy excluded)
    (hallowed : settings.disableReleaseCheck = false ∧ settings.envDisableReleaseCheck = false)
    (htable : setting.table m.queries = PortTable.ofTool host program)
    (hreaction : setting.reaction = []) (hcloses : m.Closes id true below)
    (hl : m.pool.lease? id = some l) (hheld : l.state = .held) (hhooks : l.hooks = []) :
    ReportsLeaks setting m below l.port (host program (PortTable.arguments (some l.port))) := by
  have hcheck : setting.policy.checkRelease = true := (checkRelease_iff hpolicy).mpr hallowed
  have herrors := hcloses.logsErrors hcheck hreaction hl hheld hhooks
    (htable ▸ PortTable.level_ofTool)
  rw [htable] at herrors
  constructor
  · rintro reply sets hreply hstatus ⟨hlisting, sockets, hsets⟩
    rw [PortTable.listening_ofTool hreply hstatus hlisting hsets] at herrors
    exact ⟨_, herrors, hsets.leaks⟩
  · intro hother
    rw [PortTable.listening_none hother] at herrors
    exact herrors

def leftOpen : ToolReply where
  status := .exited 0
  stdout := Text.Utf8.encode "p12\r\nf3\nn*:5000\nTST= listen\nf4\nn[::1]:40000->[::1]:5000\n".toList
  stderr := []

def Setting.tool : Setting where
  policy := Settings.policy {} ⟨32768, 60999⟩
  world := Setting.lone.world
  table _ := .ofTool (fun _ _ => .ok leftOpen) "lsof"

def Machine.closing : Machine :=
  (({} : Machine).start [.reserve 5000 (some "a"), .close "a" true]).run .tool 3

def leftOpenFiles : List FileSet := [
  ⟨"3".toList, [.name "*:5000".toList, .info "ST= listen".toList]⟩,
  ⟨"4".toList, [.name "[::1]:40000->[::1]:5000".toList]⟩]

theorem leak_report_leftOpen :
    Machine.closing.Closes 1 true [.body [] none] ∧
      IsListing leftOpen.stdout [⟨"12".toList, [], leftOpenFiles⟩] ∧
      ReportsLeaks .tool .closing [.body [] none] 5000 (.ok leftOpen) := by
  have hcloses : Machine.closing.Closes 1 true [.body [] none] := .slot rfl rfl
  have hpolicy : Setting.tool.policy = Settings.policy {} ⟨32768, 60999⟩ := rfl
  have hl : Machine.closing.pool.lease? 1 = some ⟨5000, .held, [], 1⟩ := rfl
  have htable : Setting.tool.table Machine.closing.queries =
      .ofTool (fun _ _ => .ok leftOpen) "lsof" := rfl
  refine ⟨hcloses, ⟨by decide +kernel, ?_⟩, ?_⟩
  · have hpid : Text.Numeral UInt32.size "12".toList 12 := Text.natBelow?_eq_some_iff.mp rfl
    obtain ⟨_, hfirst⟩ : ∃ s, FileSet.Lists 12 none leftOpenFiles[0] s :=
      ⟨_, FileSet.lists_iff.mp rfl⟩
    obtain ⟨_, hsecond⟩ : ∃ s, FileSet.Lists 12 none leftOpenFiles[1] s :=
      ⟨_, FileSet.lists_iff.mp rfl⟩
    exact ⟨_, .cons hpid (.cons hfirst (.cons hsecond .nil)) .nil⟩
  · exact leak_report hpolicy ⟨rfl, rfl⟩ htable rfl hcloses hl rfl rfl

end Script

end PortLease
