import PortLease.PortTable
import PortLease.Proofs.Socket.Reading
import PortLease.Proofs.Text.ByteLines

namespace PortLease

open FieldLines (ProcessSet SetsList content)

def FieldLines.ListingOf (output : List UInt8) (sockets : List Socket) : Prop :=
  ∃ sets, content (Text.byteLines output) = sets.flatMap ProcessSet.lines ∧ SetsList sets sockets

theorem read_splitLines {output : List UInt8} {sockets : List Socket} :
    FieldLines.read (ToolOutput.splitLines output) = .ok sockets ↔
      ∃ sets, content (Text.byteLines output) = sets.flatMap ProcessSet.lines ∧
        SetsList sets sockets := by
  rw [ToolOutput.splitLines_eq]
  exact FieldLines.readFrom_ok_iff

namespace PortTable

variable {host : Host} {program : String} {reply : ToolReply} {sockets : List Socket}
  {query : Option Port} {port : Port} {error : PortError} {answer : Except LaunchFault ToolReply}

/-- The sockets that a reply stands for, if it stands for any answer. -/
inductive Tells (reply : ToolReply) : List Socket → Prop
  | listing {sockets : List Socket} (hstatus : reply.status = .exited 0)
      (hlisting : FieldLines.ListingOf reply.stdout sockets) : Tells reply sockets
  | nothing (hstatus : reply.status = .exited 1)
      (hblank : ∀ line ∈ Text.byteLines reply.stdout ++ Text.byteLines reply.stderr,
        ∀ c ∈ line, Text.isBlank c = true) : Tells reply []

theorem succeeded_ofReply : (ToolOutput.ofReply reply).succeeded ↔ reply.status = .exited 0 := by
  obtain ⟨status, stdout, stderr⟩ := reply
  cases status <;> simp [ToolOutput.ofReply, ToolOutput.succeeded]

theorem foundNothing_ofReply : foundNothing (.ofReply reply) ↔ reply.status = .exited 1 ∧
    ∀ line ∈ Text.byteLines reply.stdout ++ Text.byteLines reply.stderr,
      ∀ c ∈ line, Text.isBlank c = true := by
  obtain ⟨status, stdout, stderr⟩ := reply
  simp only [← ToolOutput.splitLines_eq, List.forall_mem_append]
  cases status <;> simp [ToolOutput.ofReply, foundNothing, ToolOutput.lines, isBlankLine]

theorem ofOutput_ok_iff {selector : String} :
    (ofOutput program selector (.ofReply reply)).sockets = .ok sockets ↔ Tells reply sockets := by
  unfold ofOutput
  split
  · rename_i hsucceeded
    have hstatus := succeeded_ofReply.mp hsucceeded
    have hread : FieldLines.read (ToolOutput.ofReply reply).stdout = .ok sockets ↔
        Tells reply sockets := by
      refine read_splitLines.trans ⟨.listing hstatus, fun h => ?_⟩
      cases h with
      | listing _ hlisting => exact hlisting
      | nothing hone =>
        rw [hstatus] at hone
        cases hone
    rw [← hread]
    cases FieldLines.read (ToolOutput.ofReply reply).stdout with
    | error malformed => simp
    | ok listed => simp only [Except.ok.injEq]
  · rename_i hfailed
    have hstatus : reply.status ≠ .exited 0 := fun h => hfailed (succeeded_ofReply.mpr h)
    split
    · rename_i hnothing
      obtain ⟨hone, hblank⟩ := foundNothing_ofReply.mp hnothing
      rw [Except.ok.injEq]
      constructor
      · rintro rfl
        exact .nothing hone hblank
      · intro h
        cases h with
        | listing hzero => exact absurd hzero hstatus
        | nothing => rfl
    · rename_i hcomplaint
      simp only [reduceCtorEq, false_iff]
      intro h
      cases h with
      | listing hzero => exact hstatus hzero
      | nothing hone hblank => exact hcomplaint (foundNothing_ofReply.mpr ⟨hone, hblank⟩)

theorem isInconclusive_ofOutput {selector : String} {output : ToolOutput}
    (h : (ofOutput program selector output).sockets = .error error) : error.isInconclusive = true := by
  unfold ofOutput at h
  split at h
  · split at h <;> cases h
    rfl
  · split at h <;> cases h
    rfl

theorem isInconclusive_toError (fault : LaunchFault) :
    (fault.toError program).isInconclusive = true := by
  cases fault <;> rfl

theorem sockets_ofTool : ((ofTool host program).query query).sockets =
    match host program (arguments query) with
    | .error fault => .error (fault.toError program)
    | .ok reply =>
      (ofOutput program (selector query) (.ofReply reply)).sockets.map (onPort query) := by
  simp only [ofTool, Host.run]
  cases host program (arguments query) <;> rfl

theorem query_ok_iff (h : host program (arguments query) = answer) :
    ((ofTool host program).query query).sockets = .ok sockets ↔
      ∃ reply listed, answer = .ok reply ∧ Tells reply listed ∧ sockets = onPort query listed := by
  rw [sockets_ofTool, h]
  cases answer with
  | error fault => simp
  | ok reply =>
    simp only [Except.ok.injEq, exists_and_left, exists_eq_left',
      ← @ofOutput_ok_iff program reply _ (selector query)]
    cases (ofOutput program (selector query) (.ofReply reply)).sockets with
    | error error => simp [Except.map]
    | ok listed => simp [Except.map, eq_comm]

/-- What the tool's answer makes of every query. -/
structure Classifies (host : Host) (program : String) (answer : Except LaunchFault ToolReply) :
    Prop where
  all_iff : ∀ sockets, ((ofTool host program).query .none).sockets = .ok sockets ↔
    ∃ reply, answer = .ok reply ∧ Tells reply sockets
  accepted : ∀ output sockets, FieldLines.ListingOf output sockets ↔
    FieldLines.read (ToolOutput.splitLines output) = .ok sockets
  onPort_iff : ∀ port sockets, ((ofTool host program).query (some port)).sockets = .ok sockets ↔
    ∃ listed, ((ofTool host program).query .none).sockets = .ok listed ∧
      sockets = listed.filter (·.localPort == port)
  ownPort : ∀ port sockets, ((ofTool host program).query (some port)).sockets = .ok sockets →
    ∀ socket ∈ sockets, socket.localPort = port
  found : ∀ query sockets, ((ofTool host program).query query).sockets = .ok sockets →
    sockets ≠ [] → ∃ reply, answer = .ok reply ∧ reply.status = .exited 0
  inconclusive : ∀ query error, ((ofTool host program).query query).sockets = .error error →
    error.isInconclusive = true

theorem tool_answers_classified (h : ∀ query, host program (arguments query) = answer) :
    Classifies host program answer where
  all_iff sockets := by
    rw [query_ok_iff (h .none)]
    simp [onPort]
  accepted _ _ := read_splitLines.symm
  onPort_iff port sockets := by
    simp only [query_ok_iff (h _), onPort]
    constructor
    · rintro ⟨reply, listed, hreply, htells, rfl⟩
      exact ⟨listed, ⟨reply, listed, hreply, htells, rfl⟩, rfl⟩
    · rintro ⟨listed, ⟨reply, _, hreply, htells, rfl⟩, rfl⟩
      exact ⟨reply, listed, hreply, htells, rfl⟩
  ownPort port sockets hok socket hmem := by
    obtain ⟨reply, listed, -, -, rfl⟩ := (query_ok_iff (h _)).mp hok
    exact beq_iff_eq.mp (List.mem_filter.mp hmem).2
  found query sockets hok hne := by
    obtain ⟨reply, listed, hreply, htells, rfl⟩ := (query_ok_iff (h _)).mp hok
    refine ⟨reply, hreply, ?_⟩
    cases htells with
    | listing hstatus => exact hstatus
    | nothing => cases query <;> exact absurd rfl hne
  inconclusive query error herror := by
    rw [sockets_ofTool, h] at herror
    cases answer with
    | error fault =>
      cases herror
      exact isInconclusive_toError fault
    | ok reply =>
      have hfails : (ofOutput program (selector query) (.ofReply reply)).sockets = .error error := by
        cases hsockets : (ofOutput program (selector query) (.ofReply reply)).sockets with
        | error error' => simpa only [hsockets, Except.map, Except.error.injEq] using herror
        | ok listed => simp [hsockets, Except.map] at herror
      exact isInconclusive_ofOutput hfails

def bothEnds : ToolReply where
  status := .exited 0
  stdout := Text.Utf8.encode "p12\nf3\nn*:5000\nf4\nn[::1]:40000->[::1]:5000\n".toList
  stderr := []

theorem tool_answers_classified_bothEnds :
    Classifies (fun _ _ => .ok bothEnds) "lsof" (.ok bothEnds) ∧
      (((ofTool (fun _ _ => .ok bothEnds) "lsof").query .none).sockets.map List.length).toOption =
        some 2 ∧
      (((ofTool (fun _ _ => .ok bothEnds) "lsof").query (some 5000)).sockets.map
        List.length).toOption = some 1 :=
  ⟨tool_answers_classified fun _ => rfl, by decide +kernel, by decide +kernel⟩

end PortTable

end PortLease
