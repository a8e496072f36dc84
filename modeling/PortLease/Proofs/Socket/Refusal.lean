import Mathlib.Order.Bounds.Basic
import PortLease.Proofs.Socket.Reading

/-!
Where a listing is refused. Every stage can be brought to a good end, so the reader goes on exactly as
long as the lines may yet become a listing: the line it names is the first one after which they cannot.
If it names none, the listing is whole but for the name of its last file.
-/

namespace PortLease.FieldLines

variable {stage next final : Stage} {raw line : List Char} {lines earlier : List (List Char)}
  {socket : Option Socket} {sockets : List Socket} {fault : Fault} {malformed : Malformed}
  {process : Process} {files : List FileSet} {pid number : Nat} {command : Option String}

def Accepted (lines : List (List Char)) : Prop := ∃ sockets, read lines = .ok sockets

/-- Lines that may yet become a listing. -/
def Completable (lines : List (List Char)) : Prop := ∃ more, Accepted (lines ++ more)

inductive FileSet.Faulty (file : FileSet) : Fault → Prop
  | unnamed (hname : last Field.name? file.fields = none) : Faulty file .unnamedFile
  | noPort {name endpoint : List Char} {remote : Option (List Char)}
      (hname : last Field.name? file.fields = some name) (harrow : CutAtArrow name endpoint remote)
      (hcolon : ':' ∉ endpoint) : Faulty file (.noPort endpoint)
  | badPort {name endpoint address port : List Char} {remote : Option (List Char)}
      (hname : last Field.name? file.fields = some name) (harrow : CutAtArrow name endpoint remote)
      (hcolon : CutAtLastColon endpoint address port) (hstar : port ≠ ['*'])
      (hport : ∀ n, ¬ Text.Numeral 65536 port n) : Faulty file (.badPort endpoint)

inductive FaultyLast (fault : Fault) : List (List Char) → Prop
  | mk {sets : List ProcessSet} {sockets listed : List Socket} {pid : List Char} {n : Nat}
      {commands : List (List Char)} {files : List FileSet} {file : FileSet}
      (hsets : SetsList sets sockets) (hpid : Text.Numeral UInt32.size pid n)
      (hfiles : FilesList n (commands.getLast?.map String.ofList) files listed)
      (hfile : file.Faulty fault) :
      FaultyLast fault
        ((sets ++ [ProcessSet.mk pid commands (files ++ [file])]).flatMap ProcessSet.lines)

/-- How lines are refused that are no listing: at the first line after which nothing could make them
one, or, if something still could, for the name of the last file. -/
inductive Refusal (lines : List (List Char)) (text : String) : Prop
  | atLine {n : Nat} {raw : List Char} {fault : Fault} (hline : lines[n]? = some raw)
      (htext : text =
        s!"line {n + 1}: {fault.text} ({String.ofList (Text.quoted (Text.trimEnd raw))})")
      (hleast : IsLeast {k | ¬ Completable (lines.take k)} (n + 1))
      (hbefore : Completable (lines.take n))
  | atEnd {fault : Fault} (htext : text = fault.text)
      (hplain : ∀ (k : Nat) (rest : String), text ≠ s!"line {k}: {rest}")
      (htakes : ∀ k, Completable (lines.take k)) (hwhole : Completable lines)
      (hlast : FaultyLast fault (content lines))

theorem Completable.of_append {more : List (List Char)} (h : Completable (lines ++ more)) :
    Completable lines := by
  obtain ⟨rest, haccepted⟩ := h
  rw [List.append_assoc] at haccepted
  exact ⟨more ++ rest, haccepted⟩

theorem Completable.take (h : Completable lines) (k : Nat) : Completable (lines.take k) := by
  rw [← List.take_append_drop k lines] at h
  exact h.of_append

inductive Stage.Reads : Stage → List (List Char) → Stage → Prop
  | nil {stage : Stage} : Reads stage [] stage
  | cons {stage next final : Stage} {raw : List Char} {lines : List (List Char)}
      {socket : Option Socket} (hstep : stage.step (Text.trimEnd raw) = .ok (socket, next))
      (hrest : Reads next lines final) : Reads stage (raw :: lines) final

theorem Stage.Reads.on (h : stage.Reads lines final) (number : Nat) : ∃ sockets, ∀ more,
    readFrom number stage (lines ++ more) =
      (readFrom (number + lines.length) final more).map (sockets ++ ·) := by
  induction h generalizing number with
  | @nil stage =>
    refine ⟨[], fun more => ?_⟩
    simp only [List.nil_append, List.length_nil, Nat.add_zero]
    cases readFrom number stage more <;> rfl
  | @cons stage next final raw lines socket hstep hrest ih =>
    obtain ⟨sockets, hsockets⟩ := ih (number + 1)
    refine ⟨socket.toList ++ sockets, fun more => ?_⟩
    have hnumber : number + (raw :: lines).length = number + 1 + lines.length := by
      rw [List.length_cons, Nat.add_assoc, Nat.add_comm 1]
    rw [List.cons_append, readFrom, hnumber]
    simp only [hstep, hsockets, List.append_assoc]
    cases readFrom (number + 1 + lines.length) final more <;> rfl

def Stage.completion : Stage → List (List Char)
  | .inFile .. => [['n', '*', ':', '*']]
  | _ => []

theorem readFrom_completion (number : Nat) (stage : Stage) :
    readFrom number stage stage.completion = .ok [] := by
  cases stage <;> rfl

theorem Stage.Reads.completable (h : Stage.start.Reads lines final) : Completable lines := by
  obtain ⟨sockets, hsockets⟩ := h.on 1
  refine ⟨final.completion, sockets ++ [], ?_⟩
  rw [read, hsockets, readFrom_completion]
  rfl

theorem Stage.Reads.not_completable (h : Stage.start.Reads lines final)
    (hstep : final.step (Text.trimEnd raw) = .error fault) : ¬ Completable (lines ++ [raw]) := by
  rintro ⟨more, sockets, hread⟩
  obtain ⟨earlier, hearlier⟩ := h.on 1
  rw [read, List.append_assoc, hearlier, List.singleton_append, readFrom, hstep] at hread
  cases hread

inductive Stage.Refuses (number : Nat) (stage : Stage) (lines : List (List Char)) : Malformed → Prop
  | atLine {before after : List (List Char)} {raw : List Char} {reached : Stage} {fault : Fault}
      {n : Nat} (hlines : lines = before ++ raw :: after) (hreads : stage.Reads before reached)
      (hstep : reached.step (Text.trimEnd raw) = .error fault) (hn : n = number + before.length) :
      Refuses number stage lines (.atLine n fault (Text.trimEnd raw))
  | atEnd {final : Stage} {fault : Fault} (hreads : stage.Reads lines final)
      (hclose : final.close = .error fault) : Refuses number stage lines (.atEnd fault)

theorem readFrom_refuses (h : readFrom number stage lines = .error malformed) :
    stage.Refuses number lines malformed := by
  induction lines generalizing number stage with
  | nil =>
    rw [readFrom] at h
    cases hclose : stage.close with
    | ok socket =>
      rw [hclose] at h
      cases h
    | error fault =>
      rw [hclose] at h
      cases h
      exact .atEnd .nil hclose
  | cons raw lines ih =>
    rw [readFrom] at h
    cases hstep : stage.step (Text.trimEnd raw) with
    | error fault =>
      simp only [hstep, Except.error.injEq] at h
      subst h
      exact .atLine rfl .nil hstep rfl
    | ok taken =>
      obtain ⟨socket, next⟩ := taken
      simp only [hstep] at h
      cases hmore : readFrom (number + 1) next lines with
      | ok sockets =>
        rw [hmore] at h
        cases h
      | error malformed' =>
        rw [hmore] at h
        cases h
        cases ih hmore with
        | atLine hlines hreads hstep' hn =>
          refine .atLine (congrArg (List.cons raw) hlines) (.cons hstep hreads) hstep' ?_
          rw [hn, List.length_cons, Nat.add_assoc, Nat.add_comm 1]
        | atEnd hreads hclose => exact .atEnd (.cons hstep hreads) hclose

theorem SetsList.concat {sets : List ProcessSet} {set : ProcessSet} {more : List Socket}
    (h : SetsList sets sockets) (hpid : Text.Numeral UInt32.size set.pid pid)
    (hfiles : FilesList pid (set.commands.getLast?.map String.ofList) set.files more) :
    SetsList (sets ++ [set]) (sockets ++ more) := by
  induction h with
  | nil =>
    have hlast := SetsList.cons hpid hfiles .nil
    rwa [List.append_nil] at hlast
  | cons hpid' hfiles' hsets ih =>
    rw [List.append_assoc]
    exact .cons hpid' hfiles' ih

theorem FilesList.concat {file : FileSet} (h : FilesList pid command files sockets)
    (hfile : file.Lists pid command socket) :
    FilesList pid command (files ++ [file]) (sockets ++ socket.toList) := by
  induction h with
  | nil =>
    have hlast := FilesList.cons hfile .nil
    rwa [List.append_nil] at hlast
  | cons hfile' hfiles ih =>
    rw [List.append_assoc]
    exact .cons hfile' ih

def EndsIn (process : Process) (files : List FileSet) (lines : List (List Char)) : Prop :=
  ∃ sets sockets pid commands,
    lines = (sets ++ [ProcessSet.mk pid commands files]).flatMap ProcessSet.lines ∧
      SetsList sets sockets ∧ Text.Numeral UInt32.size pid process.pid ∧
      process.command = commands.getLast?.map String.ofList

def Whole (lines : List (List Char)) : Prop :=
  ∃ sets sockets, lines = sets.flatMap ProcessSet.lines ∧ SetsList sets sockets

def Stage.After : Stage → List (List Char) → Prop
  | .start, lines => lines = []
  | .inProcess process, lines => EndsIn process [] lines
  | .inFile process file, lines => ∃ files listed mark fields,
      FilesList process.pid process.command files listed ∧ file = fields.foldl OpenFile.add {} ∧
        EndsIn process (files ++ [FileSet.mk mark fields]) lines

theorem EndsIn.whole (h : EndsIn process files lines)
    (hfiles : FilesList process.pid process.command files sockets) : Whole lines := by
  obtain ⟨sets, earlier, pid, commands, rfl, hsets, hpid, hcommand⟩ := h
  rw [hcommand] at hfiles
  exact ⟨_, _, rfl, hsets.concat hpid hfiles⟩

theorem Whole.begin {value : List Char} (h : Whole lines)
    (hpid : Text.Numeral UInt32.size value pid) : EndsIn { pid } [] (lines ++ ['p' :: value]) := by
  obtain ⟨sets, sockets, rfl, hsets⟩ := h
  refine ⟨sets, sockets, value, [], ?_, hsets, hpid, rfl⟩
  simp [ProcessSet.lines]

theorem EndsIn.rename {value : List Char} (h : EndsIn process [] lines) :
    EndsIn { process with command := some (String.ofList value) } [] (lines ++ ['c' :: value]) := by
  obtain ⟨sets, sockets, pid, commands, rfl, hsets, hpid, -⟩ := h
  refine ⟨sets, sockets, pid, commands ++ [value], ?_, hsets, hpid, ?_⟩
  · simp [ProcessSet.lines]
  · simp

theorem EndsIn.file {mark : List Char} (h : EndsIn process files lines) :
    EndsIn process (files ++ [⟨mark, []⟩]) (lines ++ ['f' :: mark]) := by
  obtain ⟨sets, sockets, pid, commands, rfl, hsets, hpid, hcommand⟩ := h
  refine ⟨sets, sockets, pid, commands, ?_, hsets, hpid, hcommand⟩
  simp [ProcessSet.lines, FileSet.lines]

theorem EndsIn.field {mark : List Char} {fields : List Field} {field : Field}
    (h : EndsIn process (files ++ [⟨mark, fields⟩]) lines) :
    EndsIn process (files ++ [⟨mark, fields ++ [field]⟩]) (lines ++ [field.line]) := by
  obtain ⟨sets, sockets, pid, commands, rfl, hsets, hpid, hcommand⟩ := h
  refine ⟨sets, sockets, pid, commands, ?_, hsets, hpid, hcommand⟩
  simp [ProcessSet.lines, FileSet.lines]

theorem Stage.After.whole (h : stage.After lines) (hclose : stage.close = .ok socket) :
    Whole lines := by
  cases stage with
  | start => exact ⟨[], [], h, .nil⟩
  | inProcess process => exact EndsIn.whole h .nil
  | inFile process file =>
    obtain ⟨files, listed, mark, fields, hfiles, rfl, hlines⟩ := h
    exact hlines.whole (hfiles.concat (FileSet.lists_iff.mp hclose))

theorem Stage.After.takes (h : stage.After lines) (htakes : Takes stage line socket next) :
    next.After (lines ++ [line]) := by
  cases htakes with
  | process hclose hpid => exact (h.whole hclose).begin (Text.natBelow?_eq_some_iff.mp hpid)
  | command => exact EndsIn.rename h
  | @firstFile process mark => exact ⟨[], [], mark, [], .nil, rfl, EndsIn.file h⟩
  | @nextFile process _ mark socket hcomplete =>
    obtain ⟨files, listed, mark', fields, hfiles, rfl, hlines⟩ := h
    exact ⟨_, _, mark, [], hfiles.concat (FileSet.lists_iff.mp hcomplete), rfl, hlines.file⟩
  | field field =>
    obtain ⟨files, listed, mark, fields, hfiles, rfl, hlines⟩ := h
    refine ⟨files, listed, mark, fields ++ [field], hfiles, ?_, hlines.field⟩
    rw [List.foldl_append]
    rfl

theorem Stage.After.reads (h : stage.After earlier) (hreads : stage.Reads lines final) :
    final.After (earlier ++ content lines) := by
  induction hreads generalizing earlier with
  | nil =>
    rw [content, List.map_nil, List.filter_nil, List.append_nil]
    exact h
  | @cons stage next final raw lines socket hstep hrest ih =>
    -- A blank line leaves the stage and the content as they are.
    by_cases hempty : Text.trimEnd raw = []
    · rw [hempty] at hstep
      cases hstep
      rw [content_blank hempty]
      exact ih h
    · have hnext := ih (h.takes (takes_of_step hempty hstep))
      rwa [List.append_assoc, List.singleton_append, ← content_cons hempty] at hnext

theorem FileSet.faulty_of_complete {file : FileSet}
    (h : (file.fields.foldl OpenFile.add {}).complete process = .error fault) : file.Faulty fault := by
  rw [OpenFile.foldl_add] at h
  simp only [Option.or_none, OpenFile.complete] at h
  cases hname : last Field.name? file.fields with
  | none =>
    simp only [hname, Except.error.injEq] at h
    exact h ▸ .unnamed hname
  | some name =>
    rcases harrow : splitArrow name with ⟨endpoint, remote⟩
    have hcut := splitArrow_eq_iff.mp harrow
    cases hcolon : splitLastColon endpoint with
    | none =>
      simp only [hname, harrow, hcolon, Except.error.injEq] at h
      exact h ▸ .noPort hname hcut (splitLastColon_eq_none_iff.mp hcolon)
    | some parts =>
      obtain ⟨address, port⟩ := parts
      simp only [hname, harrow, hcolon] at h
      split at h
      · cases h
      · rename_i hstar
        split at h
        · rename_i hport
          cases h
          refine .badPort hname hcut (splitLastColon_eq_some_iff.mp hcolon) hstar fun n hn => ?_
          rw [Port.count, Text.natBelow?_eq_some_iff.mpr hn, Option.bind_some] at hport
          obtain ⟨-, -, -, -, -, hlt⟩ := hn
          have hval := Port.ofNat?_val ⟨n, hlt⟩
          rw [hport] at hval
          cases hval
        · cases h

theorem head?_toList_append {text : String} {c : Char} (h : text.toList.head? = some c)
    (rest : String) : (text ++ rest).toList.head? = some c := by
  rw [String.toList_append, List.head?_append, h]
  rfl

theorem FileSet.Faulty.text_ne {file : FileSet} (h : file.Faulty fault) (k : Nat) (rest : String) :
    fault.text ≠ s!"line {k}: {rest}" := by
  intro htext
  have hline : "line ".toList.head? = some 'l' := rfl
  have hhead := head?_toList_append (head?_toList_append (head?_toList_append hline (toString k))
    ": ") rest
  rw [show "line " ++ toString k ++ ": " ++ rest = fault.text from htext.symm] at hhead
  cases h with
  | unnamed => cases hhead
  | @noPort _ endpoint =>
    have hnoPort : "endpoint without a port: ".toList.head? = some 'e' := rfl
    cases (head?_toList_append hnoPort (String.ofList endpoint)).symm.trans hhead
  | @badPort _ endpoint =>
    have hbadPort : "invalid port in endpoint: ".toList.head? = some 'i' := rfl
    cases (head?_toList_append hbadPort (String.ofList endpoint)).symm.trans hhead

theorem refused_as_early_as_possible (h : read lines = .error malformed) :
    Refusal lines malformed.text := by
  cases readFrom_refuses h with
  | @atLine before after raw reached fault n hlines hreads hstep hn =>
    have hbefore : lines.take before.length = before := by rw [hlines, List.take_left]
    have hdead : ¬ Completable (lines.take (before.length + 1)) := by
      rw [hlines, List.take_length_add_append]
      exact hreads.not_completable hstep
    have hline : lines[before.length]? = some raw := by simp [hlines]
    rw [Nat.add_comm] at hn
    subst hn
    refine .atLine hline rfl ⟨hdead, fun k hk => ?_⟩ ?_
    · -- Fewer lines are a prefix of those that led to a stage.
      refine Nat.le_of_not_lt fun hlt => hk ?_
      have hcompletable := hreads.completable.take k
      rwa [← hbefore, List.take_take, Nat.min_eq_left (Nat.le_of_lt_succ hlt)] at hcompletable
    · rw [hbefore]
      exact hreads.completable
  | @atEnd final fault hreads hclose =>
    have hwhole := hreads.completable
    have hafter : final.After ([] ++ content lines) :=
      Stage.After.reads (show Stage.start.After [] from rfl) hreads
    cases final with
    | start => cases hclose
    | inProcess process => cases hclose
    | inFile process file =>
      obtain ⟨files, listed, mark, fields, hfiles, rfl, sets, sockets, pid, commands, hlines, hsets,
        hpid, hcommand⟩ := hafter
      have hfaulty : FileSet.Faulty ⟨mark, fields⟩ fault := FileSet.faulty_of_complete hclose
      refine .atEnd rfl hfaulty.text_ne hwhole.take hwhole ?_
      rw [List.nil_append] at hlines
      rw [hcommand] at hfiles
      rw [hlines]
      exact .mk hsets hpid hfiles hfaulty

def repairable : List (List Char) :=
  ["p1".toList, [], "f4".toList, "nlocalhost".toList, "f5 ".toList, "n*:80".toList]

theorem refused_as_early_as_possible_next_file :
    read repairable = .error (.atLine 5 (.noPort "localhost".toList) "f5".toList) ∧
      Refusal repairable
        (Malformed.atLine 5 (.noPort "localhost".toList) "f5".toList).text := by
  have h : read repairable = .error (.atLine 5 (.noPort "localhost".toList) "f5".toList) := by
    decide +kernel
  exact ⟨h, refused_as_early_as_possible h⟩

end PortLease.FieldLines
