import PortLease.CommandLine.Arguments
import PortLease.CommandLine.Help
import PortLease.CommandLine.Report
import PortLease.Ephemeral
import PortLease.Scenario
import PortLease.Settings.Reader

namespace PortLease.CommandLine

structure Surroundings where
  files : String → FileBytes
  override : Settings.Variable
  systemRange : FileBytes
  installed : List (String × Installed)
  scanStart : Nat → Port
  colored : Bool

structure Outcome where
  stdout : String := ""
  stderr : String := ""
  exitCode : Nat := 0
  log : List LogRecord := []

def Outcome.failure (message : String) (causes : List String) (log : List LogRecord) : Outcome where
  stderr := failureReport message causes
  exitCode := 1
  log := log

def Outcome.ofError (e : PortError) (log : List LogRecord) : Outcome :=
  .failure e.message e.causes log

def Outcome.failureBy (message : String) (e : PortError) (log : List LogRecord) : Outcome :=
  .failure message (e.message :: e.causes) log

def settings (around : Surroundings) : Option String → Except PortError Settings
  | some path => Settings.load (around.files path) around.override
  | none => .ok (.ofEnvironment around.override)

def excluded (around : Surroundings) (s : Settings) : PortRange × List LogRecord :=
  match s.ephemeralRange with
  | some r => (r, [])
  | none =>
    let (r, log, _) := Ephemeral.Source.range {} around.systemRange
    (r, log)

def stepLimit : Nat := 1000000

def scenario (around : Surroundings) (s : Settings) (excluded : PortRange) : Scenario where
  settings := s
  excluded := excluded
  source := .tool
  installed := around.installed
  scanStart := around.scanStart
  limit := stepLimit

def listSockets (around : Surroundings) (s : Scenario) (port : Option Port) (format : String) : Outcome :=
  let answer := s.table.query port
  match answer.sockets with
  | .error e => .failureBy "Port table query failed" e answer.log
  | .ok sockets =>
    match Format.ofName? format with
    | some format => { stdout := socketReport around.colored sockets format, log := answer.log }
    | none =>
      .failure s!"Unknown format: {format} (expected table, json or yaml)" [] answer.log

def records (events : List Script.Event) : List LogRecord :=
  events.filterMap fun
    | .log record => some record
    | _ => none

def closeAll (s : Scenario) (count : Nat) : List LogRecord :=
  let (_, log) := (List.range count).foldl
    (fun (s, log) n =>
      let (_, events, s) := Scenario.step s (.close (s!"lease{n}") true)
      (s, (records events).reverse ++ log))
    (s, [])
  log.reverse

def holdNotice (count : Nat) : String := s!"Holding {count} port(s), press Ctrl+C to release\n"

def reservePorts (s : Scenario) (count : Int) (hold : Bool) : Outcome :=
  let (answer, events, s) := s.step (.reserveMany count (some "lease"))
  match answer with
  | .many leases _ =>
    { stdout := String.join (leases.map fun lease => s!"{lease.1.val}\n")
      stderr := if hold then holdNotice leases.length else ""
      log := records events ++ closeAll s leases.length }
  | .error e => .ofError e (records events)
  | _ => { log := records events }

def Task.outcome (around : Surroundings) (s : Scenario) : Task → Outcome
  | .range => { stdout := rangeReport around.colored s.policy }
  | .netstat port format => listSockets around s port format
  | .check number =>
    let leasable := s.policy.isLeasable number
    { stdout := checkReport around.colored number leasable, exitCode := if leasable then 0 else 1 }
  | .reserve count hold => reservePorts s count hold

def Invocation.outcome (around : Surroundings) (i : Invocation) : Outcome :=
  match settings around i.settingsFile with
  | .error e => .failureBy ("Failed to load config " ++ i.settingsFile.getD "") e []
  | .ok s =>
    let (range, log) := excluded around s
    let scenario := scenario around s range
    let outcome := i.task.outcome around scenario
    { outcome with log := log ++ scenario.ready :: outcome.log }

def Request.outcome (around : Surroundings) : Request → Outcome
  | .run invocation => invocation.outcome around
  | .help topic => { stdout := topic.text }
  | .version => { stdout := versionText }
  | .refused => { exitCode := 2 }

end PortLease.CommandLine
