import PortLease.Proofs.Socket.Listing

namespace PortLease.FieldLines

variable {stage next : Stage} {line : List Char} {lines : List (List Char)} {socket : Option Socket}
  {sockets : List Socket} {pid : Nat} {command : Option String}

inductive Takes : Stage → List Char → Option Socket → Stage → Prop
  | process {stage : Stage} {value : List Char} {pid : Nat} {socket : Option Socket}
      (hclose : stage.close = .ok socket) (hpid : Text.natBelow? UInt32.size value = some pid) :
      Takes stage ('p' :: value) socket (.inProcess { pid })
  | command {process : Process} {value : List Char} :
      Takes (.inProcess process) ('c' :: value) none
        (.inProcess { process with command := some (String.ofList value) })
  | firstFile {process : Process} {mark : List Char} :
      Takes (.inProcess process) ('f' :: mark) none (.inFile process {})
  | nextFile {process : Process} {file : OpenFile} {mark : List Char} {socket : Option Socket}
      (hcomplete : file.complete process = .ok socket) :
      Takes (.inFile process file) ('f' :: mark) socket (.inFile process {})
  | field {process : Process} {file : OpenFile} (field : Field) :
      Takes (.inFile process file) field.line none (.inFile process (file.add field))

theorem Takes.step (h : Takes stage line socket next) : stage.step line = .ok (socket, next) := by
  cases h with
  | process hclose hpid =>
    simp only [Stage.step, readProcess, hclose, hpid, bind, Except.bind, pure, Except.pure]
  | command => rfl
  | firstFile => rfl
  | nextFile hcomplete => simp [Stage.step, hcomplete, Except.map]
  | field field => cases field <;> rfl

theorem takes_of_step (hne : line ≠ []) (h : stage.step line = .ok (socket, next)) :
    Takes stage line socket next := by
  unfold Stage.step at h
  split at h
  · rename_i value
    cases hclose : stage.close with
    | error fault => simp [hclose, bind, Except.bind] at h
    | ok closed =>
      cases hpid : Text.natBelow? UInt32.size value with
      | none => simp only [hclose, readProcess, hpid, bind, Except.bind, reduceCtorEq] at h
      | some pid =>
        simp only [hclose, readProcess, hpid, bind, Except.bind, pure, Except.pure, Except.ok.injEq,
          Prod.mk.injEq] at h
        obtain ⟨rfl, rfl⟩ := h
        exact .process hclose hpid
  · split at h
    · cases h
      exact .command
    · cases h
  · split at h
    · cases h
    · cases h
      exact .firstFile
    · rename_i process file
      cases hcomplete : file.complete process with
      | error fault => simp [hcomplete, Except.map] at h
      | ok completed =>
        rw [hcomplete] at h
        cases h
        exact .nextFile hcomplete
  · rename_i marker value _ _ _
    split at h
    · rename_i hmarker
      split at h
      · cases h
        obtain rfl | rfl | rfl := hmarker
        · exact .field (.protocol value)
        · exact .field (.name value)
        · exact .field (.info value)
      · cases h
    · cases h
  · exact absurd rfl hne

def Follows (pid : Nat) (command : Option String) (lines : List (List Char)) (sockets : List Socket) :
    Prop :=
  ∃ (files : List FileSet) (sets : List ProcessSet) (listed more : List Socket),
    lines = files.flatMap FileSet.lines ++ sets.flatMap ProcessSet.lines ∧
      FilesList pid command files listed ∧ SetsList sets more ∧ sockets = listed ++ more

def Stage.Awaits : Stage → List (List Char) → List Socket → Prop
  | .start, lines, sockets =>
    ∃ sets : List ProcessSet, lines = sets.flatMap ProcessSet.lines ∧ SetsList sets sockets
  | .inProcess process, lines, sockets =>
    ∃ commands rest : List (List Char), lines = commands.map (List.cons 'c') ++ rest ∧
      Follows process.pid ((commands.getLast?.map String.ofList).or process.command) rest sockets
  | .inFile process file, lines, sockets =>
    ∃ (fields : List Field) (rest : List (List Char)) (socket : Option Socket) (more : List Socket),
      lines = fields.map Field.line ++ rest ∧
        (fields.foldl OpenFile.add file).complete process = .ok socket ∧
        Follows process.pid process.command rest more ∧ sockets = socket.toList ++ more

theorem follows_nil_iff : Follows pid command [] sockets ↔ sockets = [] := by
  constructor
  · rintro ⟨files, sets, listed, more, hnil, hfiles, hsets, rfl⟩
    obtain ⟨hfilesnil, hsetsnil⟩ := List.append_eq_nil_iff.mp hnil.symm
    cases hfiles with
    | nil =>
      cases hsets with
      | nil => rfl
      | cons => simp [ProcessSet.lines] at hsetsnil
    | cons => simp [FileSet.lines] at hfilesnil
  · rintro rfl
    exact ⟨[], [], [], [], rfl, .nil, .nil, rfl⟩

theorem follows_of_sets {sets : List ProcessSet} (h : SetsList sets sockets) :
    Follows pid command (sets.flatMap ProcessSet.lines) sockets :=
  ⟨[], sets, [], sockets, rfl, .nil, h, rfl⟩

theorem Stage.awaits_nil_iff :
    stage.Awaits [] sockets ↔ ∃ socket, stage.close = .ok socket ∧ sockets = socket.toList := by
  cases stage with
  | start =>
    simp only [Awaits, close, Except.ok.injEq, exists_eq_left']
    constructor
    · rintro ⟨sets, hnil, hsets⟩
      cases hsets with
      | nil => rfl
      | cons => simp [ProcessSet.lines] at hnil
    · rintro rfl
      exact ⟨[], rfl, .nil⟩
  | inProcess process =>
    simp only [Awaits, close, Except.ok.injEq, exists_eq_left']
    constructor
    · rintro ⟨commands, rest, hnil, hrest⟩
      obtain ⟨-, rfl⟩ := List.append_eq_nil_iff.mp hnil.symm
      exact follows_nil_iff.mp hrest
    · intro h
      exact ⟨[], [], rfl, follows_nil_iff.mpr h⟩
  | inFile process file =>
    simp only [Awaits, close]
    constructor
    · rintro ⟨fields, rest, socket, more, hnil, hcomplete, hmore, rfl⟩
      obtain ⟨hfields, rfl⟩ := List.append_eq_nil_iff.mp hnil.symm
      obtain rfl := List.map_eq_nil_iff.mp hfields
      refine ⟨socket, hcomplete, ?_⟩
      rw [follows_nil_iff.mp hmore, List.append_nil]
    · rintro ⟨socket, hcomplete, rfl⟩
      exact ⟨[], [], socket, [], rfl, hcomplete, follows_nil_iff.mpr rfl, (List.append_nil _).symm⟩

theorem sets_cons_iff :
    (∃ sets, line :: lines = sets.flatMap ProcessSet.lines ∧ SetsList sets sockets) ↔
      ∃ value pid, line = 'p' :: value ∧ Text.natBelow? UInt32.size value = some pid ∧
        (Stage.inProcess { pid }).Awaits lines sockets := by
  constructor
  · rintro ⟨sets, hlines, hsets⟩
    cases hsets with
    | nil => cases hlines
    | @cons set sets pid listed more hpid hfiles hsets =>
      simp only [List.flatMap_cons, ProcessSet.lines, List.cons_append, List.cons.injEq] at hlines
      obtain ⟨rfl, rfl⟩ := hlines
      refine ⟨set.pid, pid, rfl, Text.natBelow?_eq_some_iff.mpr hpid, set.commands, _,
        List.append_assoc _ _ _, set.files, sets, listed, more, rfl, ?_, hsets, rfl⟩
      rw [Option.or_none]
      exact hfiles
  · rintro ⟨value, pid, rfl, hpid, commands, rest, rfl, files, sets, listed, more, rfl, hfiles, hsets,
      rfl⟩
    rw [Option.or_none] at hfiles
    have hpid := Text.natBelow?_eq_some_iff.mp hpid
    refine ⟨⟨value, commands, files⟩ :: sets, ?_, .cons hpid hfiles hsets⟩
    simp only [List.flatMap_cons, ProcessSet.lines, List.cons_append, List.append_assoc]

theorem follows_cons_iff : Follows pid command (line :: lines) sockets ↔
    (∃ mark, line = 'f' :: mark ∧ (Stage.inFile ⟨pid, command⟩ {}).Awaits lines sockets) ∨
      ∃ value next, line = 'p' :: value ∧ Text.natBelow? UInt32.size value = some next ∧
        (Stage.inProcess { pid := next }).Awaits lines sockets := by
  rw [← sets_cons_iff]
  constructor
  · rintro ⟨files, sets, listed, more, hlines, hfiles, hsets, rfl⟩
    cases hfiles with
    | nil => exact .inr ⟨sets, hlines, hsets⟩
    | @cons file files socket listed hfile hfiles =>
      simp only [List.flatMap_cons, FileSet.lines, List.cons_append, List.cons.injEq] at hlines
      obtain ⟨rfl, rfl⟩ := hlines
      exact .inl ⟨file.mark, rfl, file.fields, _, socket, listed ++ more, List.append_assoc _ _ _,
        FileSet.lists_iff.mpr hfile, ⟨files, sets, listed, more, rfl, hfiles, hsets, rfl⟩,
        List.append_assoc _ _ _⟩
  · rintro (⟨mark, rfl, fields, rest, socket, more, rfl, hcomplete, ⟨files, sets, listed, more, rfl,
      hfiles, hsets, rfl⟩, rfl⟩ | ⟨sets, hlines, hsets⟩)
    · refine ⟨⟨mark, fields⟩ :: files, sets, socket.toList ++ listed, more, ?_,
        .cons (FileSet.lists_iff.mp hcomplete) hfiles, hsets, (List.append_assoc _ _ _).symm⟩
      simp only [List.flatMap_cons, FileSet.lines, List.cons_append, List.append_assoc]
    · rw [hlines]
      exact follows_of_sets hsets

theorem command_cons (value : List Char) (commands : List (List Char)) (command : Option String) :
    ((value :: commands).getLast?.map String.ofList).or command =
      (commands.getLast?.map String.ofList).or (some (String.ofList value)) := by
  rw [List.getLast?_cons]
  cases commands.getLast? <;> rfl

theorem Stage.awaits_cons_iff : stage.Awaits (line :: lines) sockets ↔
    ∃ socket next more, Takes stage line socket next ∧ next.Awaits lines more ∧
      sockets = socket.toList ++ more := by
  constructor
  · intro h
    cases stage with
    | start =>
      obtain ⟨value, pid, rfl, hpid, hnext⟩ := sets_cons_iff.mp h
      exact ⟨none, _, sockets, .process rfl hpid, hnext, rfl⟩
    | inProcess process =>
      obtain ⟨_ | ⟨value, commands⟩, rest, hlines, hrest⟩ := h
      · obtain rfl : line :: lines = rest := hlines
        obtain ⟨mark, rfl, hnext⟩ | ⟨value, pid, rfl, hpid, hnext⟩ := follows_cons_iff.mp hrest
        · exact ⟨none, _, sockets, .firstFile, hnext, rfl⟩
        · exact ⟨none, _, sockets, .process rfl hpid, hnext, rfl⟩
      · obtain ⟨rfl, rfl⟩ := List.cons.inj hlines
        rw [command_cons] at hrest
        exact ⟨none, _, sockets, .command, ⟨commands, rest, rfl, hrest⟩, rfl⟩
    | inFile process file =>
      obtain ⟨_ | ⟨field, fields⟩, rest, socket, more, hlines, hcomplete, hmore, rfl⟩ := h
      · obtain rfl : line :: lines = rest := hlines
        obtain ⟨mark, rfl, hnext⟩ | ⟨value, pid, rfl, hpid, hnext⟩ := follows_cons_iff.mp hmore
        · exact ⟨socket, _, more, .nextFile hcomplete, hnext, rfl⟩
        · exact ⟨socket, _, more, .process hcomplete hpid, hnext, rfl⟩
      · obtain ⟨rfl, rfl⟩ := List.cons.inj hlines
        exact ⟨none, _, _, .field field, ⟨fields, rest, socket, more, rfl, hcomplete, hmore, rfl⟩,
          rfl⟩
  · rintro ⟨socket, next, more, htakes, hnext, rfl⟩
    cases htakes with
    | @process _ value pid _ hclose hpid =>
      cases stage with
      | start =>
        cases hclose
        exact sets_cons_iff.mpr ⟨value, pid, rfl, hpid, hnext⟩
      | inProcess process =>
        cases hclose
        exact ⟨[], _, rfl, follows_cons_iff.mpr (.inr ⟨value, pid, rfl, hpid, hnext⟩)⟩
      | inFile process file =>
        exact ⟨[], _, socket, more, rfl, hclose,
          follows_cons_iff.mpr (.inr ⟨value, pid, rfl, hpid, hnext⟩), rfl⟩
    | @command process value =>
      obtain ⟨commands, rest, rfl, hrest⟩ := hnext
      exact ⟨value :: commands, rest, rfl, command_cons value commands process.command ▸ hrest⟩
    | firstFile => exact ⟨[], _, rfl, follows_cons_iff.mpr (.inl ⟨_, rfl, hnext⟩)⟩
    | nextFile hcomplete =>
      exact ⟨[], _, socket, more, rfl, hcomplete, follows_cons_iff.mpr (.inl ⟨_, rfl, hnext⟩), rfl⟩
    | field field =>
      obtain ⟨fields, rest, socket, more, rfl, hcomplete, hmore, rfl⟩ := hnext
      exact ⟨field :: fields, rest, socket, more, rfl, hcomplete, hmore, rfl⟩

def content (lines : List (List Char)) : List (List Char) :=
  (lines.map Text.trimEnd).filter (· ≠ [])

theorem content_blank {raw : List Char} (h : Text.trimEnd raw = []) :
    content (raw :: lines) = content lines := by
  simp [content, h]

theorem content_cons {raw : List Char} (h : Text.trimEnd raw ≠ []) :
    content (raw :: lines) = Text.trimEnd raw :: content lines := by
  simp [content, h]

theorem readFrom_cons_ok_iff {number : Nat} {raw : List Char} :
    readFrom number stage (raw :: lines) = .ok sockets ↔
      ∃ socket next more, stage.step (Text.trimEnd raw) = .ok (socket, next) ∧
        readFrom (number + 1) next lines = .ok more ∧ sockets = socket.toList ++ more := by
  rw [readFrom]
  cases hstep : stage.step (Text.trimEnd raw) with
  | error fault => simp
  | ok taken =>
    obtain ⟨socket, next⟩ := taken
    cases hmore : readFrom (number + 1) next lines with
    | error malformed => simp [hmore, Except.map]
    | ok more => simp [hmore, Except.map, eq_comm]

theorem readFrom_ok_iff {number : Nat} :
    readFrom number stage lines = .ok sockets ↔ stage.Awaits (content lines) sockets := by
  induction lines generalizing number stage sockets with
  | nil =>
    rw [content, List.map_nil, List.filter_nil, Stage.awaits_nil_iff, readFrom]
    cases stage.close with
    | error fault => simp [Except.mapError, Except.map]
    | ok socket => simp [Except.mapError, Except.map, eq_comm]
  | cons raw lines ih =>
    rw [readFrom_cons_ok_iff]
    -- A line that is empty once it is trimmed moves no stage, and it does not count.
    by_cases hempty : Text.trimEnd raw = []
    · rw [content_blank hempty, hempty, ← ih]
      constructor
      · rintro ⟨socket, next, more, hstep, hmore, rfl⟩
        cases hstep
        exact hmore
      · intro h
        exact ⟨none, stage, sockets, rfl, h, rfl⟩
    · rw [content_cons hempty, Stage.awaits_cons_iff]
      constructor
      · rintro ⟨socket, next, more, hstep, hmore, rfl⟩
        exact ⟨socket, next, more, takes_of_step hempty hstep, ih.mp hmore, rfl⟩
      · rintro ⟨socket, next, more, htakes, hmore, rfl⟩
        exact ⟨socket, next, more, htakes.step, ih.mpr hmore, rfl⟩

theorem read_iff_listing (lines : List (List Char)) :
    (∀ sockets, read lines = .ok sockets ↔
      ∃ sets, content lines = sets.flatMap ProcessSet.lines ∧ SetsList sets sockets) ∧
    ((∃ malformed, read lines = .error malformed) ↔
      ¬ ∃ sets sockets, content lines = sets.flatMap ProcessSet.lines ∧ SetsList sets sockets) := by
  have haccepts (sockets : List Socket) := @readFrom_ok_iff .start lines sockets 1
  refine ⟨haccepts, ?_, fun hno => ?_⟩
  · rintro ⟨malformed, hread⟩ ⟨sets, sockets, hsets⟩
    have hok : read lines = .ok sockets := (haccepts sockets).mpr ⟨sets, hsets⟩
    rw [hread] at hok
    cases hok
  · cases hread : read lines with
    | error malformed => exact ⟨malformed, rfl⟩
    | ok sockets =>
      obtain ⟨sets, hsets⟩ := (haccepts sockets).mp hread
      exact absurd ⟨sets, sockets, hsets⟩ hno

end PortLease.FieldLines
