import PortLease.Log
import PortLease.Proofs.Socket.Reading

namespace PortLease

variable {port : Port}

theorem ConnectionState.ofName_eq_listen {name : String} : ofName name = .listen ↔ name = "LISTEN" := by
  constructor
  · intro h
    unfold ofName at h
    split at h <;> first | rfl | cases h
  · rintro rfl
    rfl

theorem ConnectionState.isListening_iff {state : ConnectionState} :
    state.isListening ↔ state = .listen := by
  cases state <;> simp [isListening]

theorem ConnectionState.isListening_ofChars {cs : List Char} :
    (ofChars cs).isListening ↔ Text.asciiUpper (Text.trim cs) = "LISTEN".toList := by
  rw [isListening_iff, ofChars, ofName_eq_listen, ← String.toList_inj, String.toList_ofList]

namespace FieldLines

/-- The last name of the file set has the port in the endpoint of this host, and its last state is that of
a socket that listens. -/
structure FileSet.ListensOn (port : Port) (file : FileSet) : Prop where
  endpoint : ∃ name endpoint address text remote, last Field.name? file.fields = some name ∧
    CutAtArrow name endpoint remote ∧ CutAtLastColon endpoint address text ∧
    Text.Numeral 65536 text port.val
  state : ∃ name, last Field.stateName? file.fields = some name ∧
    Text.asciiUpper (Text.trim name) = "LISTEN".toList

structure Reports (port : Port) (set : ProcessSet) (record : LogRecord) : Prop where
  level : record.level = .error
  fields : ∃ pid, Text.Numeral UInt32.size set.pid pid ∧ record.fields = [
    ("port", toString port.val), ("pid", toString pid),
    ("command", (set.commands.getLast?.map String.ofList).getD "?"), ("state", "LISTEN")]

inductive Leaks (port : Port) : List (ProcessSet × FileSet) → List LogRecord → Prop
  | nil : Leaks port [] []
  | other {set : ProcessSet} {file : FileSet} {rest : List (ProcessSet × FileSet)}
      {records : List LogRecord} (hfile : ¬ file.ListensOn port) (hrest : Leaks port rest records) :
      Leaks port ((set, file) :: rest) records
  | leak {set : ProcessSet} {file : FileSet} {rest : List (ProcessSet × FileSet)}
      {record : LogRecord} {records : List LogRecord} (hfile : file.ListensOn port)
      (hrecord : Reports port set record) (hrest : Leaks port rest records) :
      Leaks port ((set, file) :: rest) (record :: records)

def filesOf (sets : List ProcessSet) : List (ProcessSet × FileSet) :=
  sets.flatMap fun set => set.files.map (Prod.mk set)

variable {file : FileSet} {pid : Nat} {command : Option String}

theorem isListening_iff {socket : Socket} (h : socket.state =
      (last Field.stateName? file.fields).map ConnectionState.ofChars) :
    socket.isListening ↔ ∃ name, last Field.stateName? file.fields = some name ∧
      Text.asciiUpper (Text.trim name) = "LISTEN".toList := by
  rw [Socket.isListening, h]
  cases last Field.stateName? file.fields with
  | none => simp
  | some name => simpa using ConnectionState.isListening_ofChars

theorem FileSet.Lists.listensOn_iff {socket : Option Socket} (h : file.Lists pid command socket) :
    file.ListensOn port ↔ ∃ s, socket = some s ∧ s.localPort = port ∧ s.isListening := by
  have hsame {name endpoint endpoint' address address' text text' : List Char}
      {remote remote' : Option (List Char)} (harrow : CutAtArrow name endpoint remote)
      (hcolon : CutAtLastColon endpoint address text) (harrow' : CutAtArrow name endpoint' remote')
      (hcolon' : CutAtLastColon endpoint' address' text') : text' = text := by
    have heq := (splitArrow_eq_iff.mpr harrow).symm.trans (splitArrow_eq_iff.mpr harrow')
    obtain ⟨rfl, -⟩ := Prod.mk.inj heq
    have hcut := (splitLastColon_eq_some_iff.mpr hcolon).symm.trans
      (splitLastColon_eq_some_iff.mpr hcolon')
    exact (Prod.mk.inj (Option.some.inj hcut)).2.symm
  cases h with
  | unbound hname harrow hcolon =>
    constructor
    · rintro ⟨⟨name, endpoint, address, text, remote, hname', harrow', hcolon', hport⟩, -⟩
      obtain rfl := Option.some.inj (hname.symm.trans hname')
      obtain rfl := hsame harrow hcolon harrow' hcolon'
      have hnumber := Text.natBelow?_eq_some_iff.mpr hport
      rw [natBelow?_star] at hnumber
      cases hnumber
    · rintro ⟨s, hs, -⟩
      cases hs
  | bound hname harrow hcolon hport =>
    constructor
    · rintro ⟨⟨name, endpoint, address, text, remote, hname', harrow', hcolon', hport'⟩, hstate⟩
      obtain rfl := Option.some.inj (hname.symm.trans hname')
      obtain rfl := hsame harrow hcolon harrow' hcolon'
      have hnumber := (Text.natBelow?_eq_some_iff.mpr hport).symm.trans
        (Text.natBelow?_eq_some_iff.mpr hport')
      exact ⟨_, rfl, Fin.ext (Option.some.inj hnumber), (isListening_iff rfl).mpr hstate⟩
    · rintro ⟨s, hs, rfl, hlistens⟩
      obtain rfl := Option.some.inj hs
      exact ⟨⟨_, _, _, _, _, hname, harrow, hcolon, hport⟩, (isListening_iff rfl).mp hlistens⟩

theorem FileSet.Lists.of_socket {socket : Socket} (h : file.Lists pid command (some socket)) :
    socket.pid = pid ∧ socket.command = command := by
  cases h with
  | bound => exact ⟨rfl, rfl⟩

def listenersOn (port : Port) (sockets : List Socket) : List Socket :=
  (sockets.filter (·.localPort == port)).filter Socket.isListening

theorem listenersOn_append (sockets more : List Socket) :
    listenersOn port (sockets ++ more) = listenersOn port sockets ++ listenersOn port more := by
  simp [listenersOn]

theorem FileSet.Lists.leaks {set : ProcessSet} (hpid : Text.Numeral UInt32.size set.pid pid)
    {socket : Option Socket} {rest : List (ProcessSet × FileSet)} {records : List LogRecord}
    (h : file.Lists pid (set.commands.getLast?.map String.ofList) socket)
    (hrest : Leaks port rest records) : Leaks port ((set, file) :: rest)
      ((listenersOn port socket.toList).map (.stillListening port) ++ records) := by
  by_cases hlistens : file.ListensOn port
  · obtain ⟨s, rfl, hport, hstate⟩ := h.listensOn_iff.mp hlistens
    obtain ⟨hid, hcommand⟩ := h.of_socket
    have hself : listenersOn port [s] = [s] := by simp [listenersOn, hport, hstate]
    have htext : s.stateText = some "LISTEN" := by
      rw [Socket.isListening, Option.any_eq_true] at hstate
      obtain ⟨state, hs, hlisten⟩ := hstate
      rw [Socket.stateText, hs, ConnectionState.isListening_iff.mp hlisten]
      rfl
    rw [Option.toList_some, hself]
    refine .leak hlistens ⟨rfl, pid, hpid, ?_⟩ hrest
    simp only [LogRecord.fields, LogRecord.portField, htext, hid, hcommand, Option.getD_some]
  · have hnone : listenersOn port socket.toList = [] := by
      cases socket with
      | none => rfl
      | some s =>
        apply List.filter_eq_nil_iff.mpr
        intro other hmem hstate
        rw [List.mem_filter, Option.toList_some, List.mem_singleton, beq_iff_eq] at hmem
        obtain ⟨rfl, hport⟩ := hmem
        exact hlistens (h.listensOn_iff.mpr ⟨other, rfl, hport, hstate⟩)
    rw [hnone]
    exact .other hlistens hrest

theorem FilesList.leaks {set : ProcessSet} (hpid : Text.Numeral UInt32.size set.pid pid)
    {files : List FileSet} {sockets : List Socket} {rest : List (ProcessSet × FileSet)}
    {records : List LogRecord} (hcommand : command = set.commands.getLast?.map String.ofList)
    (h : FilesList pid command files sockets) (hrest : Leaks port rest records) :
    Leaks port (files.map (Prod.mk set) ++ rest)
      ((listenersOn port sockets).map (.stillListening port) ++ records) := by
  induction h with
  | nil => exact hrest
  | @cons file files socket sockets hfile _ ih =>
    rw [listenersOn_append, List.map_append, List.append_assoc]
    exact (hcommand ▸ hfile).leaks hpid ih

theorem SetsList.leaks {sets : List ProcessSet} {sockets : List Socket} (h : SetsList sets sockets) :
    Leaks port (filesOf sets) ((listenersOn port sockets).map (.stillListening port)) := by
  induction h with
  | nil => exact .nil
  | cons hpid hfiles _ ih =>
    rw [listenersOn_append, List.map_append]
    exact hfiles.leaks hpid rfl ih

end FieldLines

end PortLease
