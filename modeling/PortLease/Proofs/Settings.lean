import PortLease.Proofs.Ephemeral
import PortLease.Proofs.Yaml.Decode
import PortLease.Proofs.Yaml.Node
import PortLease.Settings.Reader
import PortLease.Settings.Writer

namespace PortLease

variable {d : Yaml.Document} {s : Settings} {node : Yaml.Node}

namespace PortRange

theorem reads_port : Yaml.Reads (port d) fun p => .nat p.val := by
  intro p node hnode
  have hnat : d.natBelow Port.count node = pure p.val := Yaml.Document.natBelow_denotes p.isLt hnode
  rw [port, hnat, pure_bind, Port.ofNat?_val]
  rfl

theorem proper_outline (r : PortRange) : r.outline.Proper := by
  have hkeys : Yaml.Outline.IsKey "start" ∧ Yaml.Outline.IsKey "end" := by decide
  simp [outline, Yaml.Outline.Proper, Yaml.Outline.ProperMembers, hkeys, Yaml.Outline.proper_nat]

theorem reads_outline : Yaml.Reads (ofNode d) outline := by
  rintro r _ ⟨_, rfl, start, _, rfl, hstart, stop, _, rfl, hstop, rfl⟩
  have hfirst : addNode d {} (.scalar {} "start".toList .plain, start) = pure ⟨some r.start, none⟩ := by
    rw [addNode, Yaml.Document.text_scalar, pure_bind, if_pos (.inl rfl), reads_port _ _ hstart]
    rfl
  have hsecond : addNode d ⟨some r.start, none⟩ (.scalar {} "end".toList .plain, stop) =
      pure ⟨some r.start, some r.stop⟩ := by
    rw [addNode, Yaml.Document.text_scalar, pure_bind, if_pos (.inr rfl), reads_port _ _ hstop]
    rfl
  rw [ofNode, Yaml.Document.members_mapping, pure_bind]
  simp only [List.foldlM_cons, List.foldlM_nil, hfirst, hsecond, pure_bind]
  rfl

end PortRange

namespace Settings

def outline (s : Settings) : List (String × Yaml.Outline) := [
  ("disableReleaseCheck", .bool s.disableReleaseCheck),
  ("probeBind", .bool s.probeBind),
  ("ephemeralRange", .optional PortRange.outline s.ephemeralRange),
  ("lsofPath", .optional (fun path => .text path.toList) s.lsofPath)]

theorem toYaml_eq (s : Settings) : s.toYaml = Yaml.Outline.mappingText s.outline := rfl

theorem properMembers_outline (s : Settings) : Yaml.Outline.ProperMembers s.outline := by
  have hkeys : Yaml.Outline.IsKey "disableReleaseCheck" ∧ Yaml.Outline.IsKey "probeBind" ∧
      Yaml.Outline.IsKey "ephemeralRange" ∧ Yaml.Outline.IsKey "lsofPath" := by decide
  have hrange := Yaml.Outline.proper_optional PortRange.proper_outline s.ephemeralRange
  have hpath := Yaml.Outline.proper_optional (f := fun path : String => .text path.toList)
    (fun path => by rw [Yaml.Outline.Proper]; trivial) s.lsofPath
  simp [outline, Yaml.Outline.ProperMembers, hkeys, Yaml.Outline.proper_bool, hrange, hpath]

theorem once_none {α : Type} {read : Yaml.Decoding α} {a : α} (h : read = pure a) : once none read = pure (some a) := by
  rw [h]
  rfl

def wordFlag? (resolve : List Char → Yaml.CoreSchema.Atom) (cs : List Char) : Option Bool :=
  (Yaml.Value.ofAtom? cs (resolve cs)).map flagOf

theorem flag_word {word : String} (hnode : (Yaml.Outline.word word).Denotes node) :
    flagOf <$> Yaml.Value.ofNode d nestingLimit node =
      StateT.lift (wordFlag? Yaml.CoreSchema.atom word.toList) := by
  obtain rfl : node = .scalar {} word.toList .plain := hnode
  have hscalar : (Yaml.Value.ofScalar? none word.toList .plain).bind (Yaml.Value.withTag? none) =
      Yaml.Value.ofAtom? word.toList (Yaml.CoreSchema.atom word.toList) := Option.bind_fun_some _
  rw [Yaml.Value.ofNode_scalar, hscalar, wordFlag?]
  cases Yaml.Value.ofAtom? word.toList (Yaml.CoreSchema.atom word.toList) <;> rfl

theorem reads_flag : Yaml.Reads (fun node => flagOf <$> Yaml.Value.ofNode d nestingLimit node) .bool := by
  intro b node hnode
  refine (flag_word hnode).trans ?_
  cases b <;> rfl

theorem reads_path : Yaml.Reads (fun node => String.ofList <$> d.text node) fun path => .text path.toList := by
  intro path node hnode
  have htext : d.text node = pure path.toList := Yaml.Document.reads_text _ node hnode
  simp only [htext, map_pure, String.ofList_toList]

section Members

variable {w : Written}

theorem addMember_disableReleaseCheck {b : Bool} (hnode : (Yaml.Outline.bool b).Denotes node)
    (hw : w.disableReleaseCheck = none) : addMember d w (.scalar {} "disableReleaseCheck".toList .plain, node) =
      pure { w with disableReleaseCheck := some b } := by
  rw [addMember, Yaml.Document.text_scalar, pure_bind, String.ofList_toList]
  simp only [hw, once_none (reads_flag b node hnode)]
  rfl

theorem addMember_probeBind {b : Bool} (hnode : (Yaml.Outline.bool b).Denotes node) (hw : w.probeBind = none) :
    addMember d w (.scalar {} "probeBind".toList .plain, node) = pure { w with probeBind := some b } := by
  rw [addMember, Yaml.Document.text_scalar, pure_bind, String.ofList_toList]
  simp only [hw, once_none (Yaml.Document.reads_bool b node hnode)]
  rfl

theorem addMember_ephemeralRange {r : Option PortRange}
    (hnode : (Yaml.Outline.optional PortRange.outline r).Denotes node) (hw : w.ephemeralRange = none) :
    addMember d w (.scalar {} "ephemeralRange".toList .plain, node) = pure { w with ephemeralRange := some r } := by
  have hrange : d.optional (PortRange.ofNode d) node = pure r :=
    Yaml.Document.reads_optional PortRange.reads_outline (fun r _ => Yaml.Document.tells_mapping _) r node hnode
  rw [addMember, Yaml.Document.text_scalar, pure_bind, String.ofList_toList]
  simp only [hw, once_none hrange]
  rfl

theorem addMember_lsofPath {path : Option String}
    (hnode : (Yaml.Outline.optional (fun path => .text path.toList) path).Denotes node) (hw : w.lsofPath = none) :
    addMember d w (.scalar {} "lsofPath".toList .plain, node) = pure { w with lsofPath := some path } := by
  have hpath : d.optional (fun node => String.ofList <$> d.text node) node = pure path :=
    Yaml.Document.reads_optional reads_path (fun path _ => Yaml.Document.tells_text _) path node hnode
  rw [addMember, Yaml.Document.text_scalar, pure_bind, String.ofList_toList]
  simp only [hw, once_none hpath]
  rfl

end Members

theorem ofNode_denotes (hnode : (Yaml.Outline.mapping s.outline).Denotes node) :
    ofNode d node = pure { s with envDisableReleaseCheck := false } := by
  obtain ⟨_, rfl, disable, _, rfl, hdisable, probe, _, rfl, hprobe, range, _, rfl, hrange, path, _, rfl, hpath, rfl⟩ :=
    hnode
  rw [ofNode, Yaml.Document.members_mapping, pure_bind]
  simp only [List.foldlM_cons, List.foldlM_nil, addMember_disableReleaseCheck hdisable, addMember_probeBind hprobe,
    addMember_ephemeralRange hrange, addMember_lsofPath hpath, pure_bind]
  rfl

theorem decode?_printed {parse : Yaml.Parser} {print : List (String × Yaml.Outline) → List Char}
    (h : Yaml.RoundTrip parse print) (s : Settings) :
    Yaml.decode? parse ofNode (print s.outline) = some { s with envDisableReleaseCheck := false } := by
  have hne : s.outline ≠ [] := List.cons_ne_nil _ _
  obtain ⟨node, hparse, hnode⟩ := h.printed hne s.properMembers_outline
  exact Yaml.decode?_lift hparse fun d => ofNode_denotes hnode

theorem ofYaml_toYaml (s : Settings) : ofYaml s.toYaml = .ok { s with envDisableReleaseCheck := false } := by
  have hblank : (Text.trim s.toYaml).isEmpty = false :=
    List.isEmpty_eq_false_iff.mpr (Text.trim_ne_nil (c := 'd') (by decide))
  rw [ofYaml, hblank, if_neg Bool.false_ne_true, toYaml_eq, decode?_printed Yaml.roundTrip]

theorem envDisableReleaseCheck_ofYaml {text : List Char} (h : ofYaml text = .ok s) :
    s.envDisableReleaseCheck = false := by
  rw [ofYaml] at h
  split at h
  · rw [← Except.ok.inj h]
  · split at h
    · rename_i hdecode
      obtain rfl := Except.ok.inj h
      rw [Yaml.decode?, Option.bind_eq_some_iff] at hdecode
      obtain ⟨root, -, hroot⟩ := hdecode
      simp only [ofNode, StateT.run_bind, StateT.run_pure, Option.map_eq_some_iff, Option.bind_eq_bind,
        Option.bind_eq_some_iff, Option.pure_def, Option.some.injEq] at hroot
      obtain ⟨_, ⟨_, _, _, _, rfl⟩, rfl⟩ := hroot
      rfl
    · cases h

/-- What a value of the environment variable says. One that is no text says nothing. -/
inductive Variable.Says : Variable → Bool → Prop
  | unset : Says none false
  | text (text : List Char) : Says (some (Text.Utf8.encode text)) (readFlag text)
  | garbled (bytes : List UInt8) (h : ∀ text, bytes ≠ Text.Utf8.encode text) : Says (some bytes) false

variable {value : Variable} {flag : Bool}

theorem Variable.says_iff : Variable.Says value flag ↔ value.isYes = flag := by
  constructor
  · rintro (_ | ⟨text⟩ | ⟨bytes, h⟩)
    · rfl
    · simp [isYes, Text.Utf8.decode?_eq_some_iff.mpr rfl]
    · have hnone : Text.Utf8.decode? bytes = none := Option.eq_none_iff_forall_ne_some.mpr fun text hdecode =>
        h text (Text.Utf8.decode?_eq_some_iff.mp hdecode)
      simp [isYes, hnone]
  · rintro rfl
    cases value with
    | none => exact .unset
    | some bytes =>
      cases h : Text.Utf8.decode? bytes with
      | none =>
        have hgarbled (text : List Char) : bytes ≠ Text.Utf8.encode text := fun hbytes => by
          rw [Text.Utf8.decode?_eq_some_iff.mpr hbytes] at h
          cases h
        simpa [isYes, h] using Says.garbled bytes hgarbled
      | some text =>
        rw [Text.Utf8.decode?_eq_some_iff] at h
        subst h
        simpa [isYes, Text.Utf8.decode?_eq_some_iff.mpr rfl] using Says.text text

theorem load_encode (text : List Char) (value : Variable) :
    load (.ok (Text.Utf8.encode text)) value = (ofYaml text).map (·.withEnvironment value) := by
  rw [load, FileBytes.text_ok_iff.mpr rfl]

theorem load_cases (file : FileBytes) (value value' : Variable) :
    (∃ why, load file value = .error why ∧ load file value' = .error why) ∨
      ∃ s : Settings, load file value = .ok (s.withEnvironment value) ∧
        load file value' = .ok (s.withEnvironment value') := by
  unfold load
  cases file.text with
  | error why => exact .inl ⟨.io why, rfl, rfl⟩
  | ok text =>
    dsimp only
    cases ofYaml text with
    | error why => exact .inl ⟨why, rfl, rfl⟩
    | ok s => exact .inr ⟨s, rfl, rfl⟩

theorem file_and_environment :
    (∀ s : Settings, ofYaml s.toYaml = .ok { s with envDisableReleaseCheck := false } ∧
      ∀ value flag, Variable.Says value flag →
        load (.ok (Text.Utf8.encode s.toYaml)) value = .ok { s with envDisableReleaseCheck := flag }) ∧
    (∀ file value value',
      (∃ why, load file value = .error why ∧ load file value' = .error why) ∨
      ∃ (s : Settings) (flag flag' : Bool), Variable.Says value flag ∧ Variable.Says value' flag' ∧
        load file value = .ok { s with envDisableReleaseCheck := flag } ∧
        load file value' = .ok { s with envDisableReleaseCheck := flag' }) ∧
    ∀ (text : List Char) (s : Settings), ofYaml text = .ok s → s.envDisableReleaseCheck = false := by
  refine ⟨fun s => ⟨ofYaml_toYaml s, fun value flag hsays => ?_⟩, fun file value value' => ?_,
    fun text s => envDisableReleaseCheck_ofYaml⟩
  · rw [load_encode, ofYaml_toYaml, ← Variable.says_iff.mp hsays]
    rfl
  · exact (load_cases file value value').imp_right fun ⟨s, h, h'⟩ =>
      ⟨s, _, _, Variable.says_iff.mpr rfl, Variable.says_iff.mpr rfl, h, h'⟩

def inverted : Settings where
  disableReleaseCheck := true
  envDisableReleaseCheck := true
  probeBind := false
  ephemeralRange := some ⟨60000, 50000⟩
  lsofPath := some "a: b\n"

example : inverted.toYaml = ("disableReleaseCheck: true\nprobeBind: false\nephemeralRange:\n  start: 60000\n" ++
    "  end: 50000\nlsofPath: |\n  a: b\n").toList := by decide +kernel

theorem file_and_environment_inverted :
    ofYaml inverted.toYaml = .ok { inverted with envDisableReleaseCheck := false } ∧
    load (.ok (Text.Utf8.encode inverted.toYaml)) (some (Text.Utf8.encode " YES ".toList)) = .ok inverted ∧
    { inverted with envDisableReleaseCheck := false }.envDisableReleaseCheck = false := by
  have hsays : Variable.Says (some (Text.Utf8.encode " YES ".toList)) true := Variable.Says.text " YES ".toList
  obtain ⟨hread, hload⟩ := file_and_environment.1 inverted
  exact ⟨hread, hload _ true hsays, file_and_environment.2.2 _ _ hread⟩

end Settings

end PortLease
