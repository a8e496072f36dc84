import PortLease.Proofs.Socket.Endpoint
import PortLease.Proofs.Text.Numeral

namespace PortLease.FieldLines

inductive Field where
  | protocol (value : List Char)
  | name (value : List Char)
  | info (value : List Char)

structure FileSet where
  mark : List Char
  fields : List Field

structure ProcessSet where
  pid : List Char
  commands : List (List Char)
  files : List FileSet

def Field.line : Field → List Char
  | .protocol value => 'P' :: value
  | .name value => 'n' :: value
  | .info value => 'T' :: value

def FileSet.lines (file : FileSet) : List (List Char) :=
  ('f' :: file.mark) :: file.fields.map Field.line

def ProcessSet.lines (set : ProcessSet) : List (List Char) :=
  ('p' :: set.pid) :: (set.commands.map (List.cons 'c') ++ set.files.flatMap FileSet.lines)

def Field.protocol? : Field → Option (List Char)
  | .protocol value => some value
  | _ => none

def Field.name? : Field → Option (List Char)
  | .name value => some value
  | _ => none

def Field.stateName? : Field → Option (List Char)
  | .info ('S' :: 'T' :: '=' :: state) => some state
  | _ => none

def last (pick : Field → Option (List Char)) (fields : List Field) : Option (List Char) :=
  (fields.filterMap pick).getLast?

/-- What a file set of a process lists: a socket, or nothing if it is bound to no port. -/
inductive FileSet.Lists (pid : Nat) (command : Option String) (file : FileSet) : Option Socket → Prop
  | unbound {name endpoint address : List Char} {remote : Option (List Char)}
      (hname : last Field.name? file.fields = some name) (harrow : CutAtArrow name endpoint remote)
      (hcolon : CutAtLastColon endpoint address ['*']) : Lists pid command file none
  | bound {name endpoint address port : List Char} {remote : Option (List Char)} {localPort : Port}
      (hname : last Field.name? file.fields = some name) (harrow : CutAtArrow name endpoint remote)
      (hcolon : CutAtLastColon endpoint address port)
      (hport : Text.Numeral 65536 port localPort.val) :
      Lists pid command file (some {
        pid, command
        protocol := ((last Field.protocol? file.fields).map String.ofList).getD "TCP"
        localAddress := String.ofList address
        localPort
        remote := remote.map String.ofList
        state := (last Field.stateName? file.fields).map ConnectionState.ofChars })

inductive FilesList (pid : Nat) (command : Option String) : List FileSet → List Socket → Prop
  | nil : FilesList pid command [] []
  | cons {file : FileSet} {files : List FileSet} {socket : Option Socket} {sockets : List Socket}
      (hfile : file.Lists pid command socket) (hfiles : FilesList pid command files sockets) :
      FilesList pid command (file :: files) (socket.toList ++ sockets)

inductive SetsList : List ProcessSet → List Socket → Prop
  | nil : SetsList [] []
  | cons {set : ProcessSet} {sets : List ProcessSet} {pid : Nat} {sockets more : List Socket}
      (hpid : Text.Numeral UInt32.size set.pid pid)
      (hfiles : FilesList pid (set.commands.getLast?.map String.ofList) set.files sockets)
      (hsets : SetsList sets more) : SetsList (set :: sets) (sockets ++ more)

def OpenFile.add (file : OpenFile) : Field → OpenFile
  | .protocol value => { file with protocol := some (String.ofList value) }
  | .name value => { file with name := some value }
  | .info value => { file with state := (stateOf? value).or file.state }

theorem last_cons (pick : Field → Option (List Char)) (field : Field) (fields : List Field) :
    last pick (field :: fields) = (last pick fields).or (pick field) := by
  unfold last
  cases h : pick field with
  | none => simp [h]
  | some value => simp [h, List.getLast?_cons]

theorem stateOf?_eq (value : List Char) :
    stateOf? value = (Field.stateName? (.info value)).map ConnectionState.ofChars := by
  unfold stateOf? Field.stateName?
  split
  · rfl
  · rename_i h
    split
    · rename_i heq
      simp only [Field.info.injEq] at heq
      exact absurd heq (h _)
    · rfl

theorem OpenFile.foldl_add (fields : List Field) (file : OpenFile) :
    fields.foldl OpenFile.add file = {
      protocol := ((last Field.protocol? fields).map String.ofList).or file.protocol
      name := (last Field.name? fields).or file.name
      state := ((last Field.stateName? fields).map ConnectionState.ofChars).or file.state } := by
  induction fields generalizing file with
  | nil => rfl
  | cons field fields ih =>
    have hor {α : Type} (g : List Char → α) (x y : Option (List Char)) :
        (x.or y).map g = (x.map g).or (y.map g) := by cases x <;> rfl
    rw [List.foldl_cons, ih]
    simp only [last_cons, hor, Option.or_assoc]
    cases field with
    | protocol value => rfl
    | name value => rfl
    | info value =>
      simp only [add, stateOf?_eq]
      rfl

theorem natBelow?_star : Text.natBelow? 65536 ['*'] = none := rfl

theorem FileSet.lists_iff {pid : Nat} {command : Option String} {file : FileSet}
    {socket : Option Socket} :
    (file.fields.foldl OpenFile.add {}).complete ⟨pid, command⟩ = .ok socket ↔
      file.Lists pid command socket := by
  rw [OpenFile.foldl_add]
  simp only [Option.or_none, OpenFile.complete]
  constructor
  · intro h
    cases hname : last Field.name? file.fields with
    | none => simp [hname] at h
    | some name =>
      rcases harrow : splitArrow name with ⟨endpoint, remote⟩
      simp only [hname, harrow] at h
      have hcut := splitArrow_eq_iff.mp harrow
      cases hcolon : splitLastColon endpoint with
      | none => simp [hcolon] at h
      | some parts =>
        obtain ⟨address, port⟩ := parts
        have hlast := splitLastColon_eq_some_iff.mp hcolon
        simp only [hcolon] at h
        by_cases hstar : port = ['*']
        · rw [if_pos hstar, Except.ok.injEq] at h
          subst h hstar
          exact .unbound hname hcut hlast
        · rw [if_neg hstar] at h
          cases hport : (Text.natBelow? Port.count port).bind Port.ofNat? with
          | none => simp [hport] at h
          | some localPort =>
            obtain ⟨n, hn, hval⟩ := Option.bind_eq_some_iff.mp hport
            rw [Port.ofNat?_eq_some_iff] at hval
            subst hval
            simp only [hport, Except.ok.injEq] at h
            subst h
            exact .bound hname hcut hlast (Text.natBelow?_eq_some_iff.mp hn)
  · intro h
    cases h with
    | unbound hname harrow hcolon =>
      simp only [hname, splitArrow_eq_iff.mpr harrow, splitLastColon_eq_some_iff.mpr hcolon, if_true]
    | @bound name endpoint address port remote localPort hname harrow hcolon hport =>
      have hn := Text.natBelow?_eq_some_iff.mpr hport
      have hstar : port ≠ ['*'] := by
        rintro rfl
        rw [natBelow?_star] at hn
        cases hn
      have hval : (Text.natBelow? Port.count port).bind Port.ofNat? = some localPort := by
        rw [Port.count, hn]
        exact Port.ofNat?_val localPort
      simp only [hname, splitArrow_eq_iff.mpr harrow, splitLastColon_eq_some_iff.mpr hcolon,
        if_neg hstar, hval]

end PortLease.FieldLines
