import PortLease.Ephemeral
import PortLease.Proofs.Script.GivenPort
import PortLease.Proofs.Text.Numeral
import PortLease.Proofs.Text.Utf8
import PortLease.Proofs.Text.Words

namespace PortLease

open Text (FirstWords Numeral)

variable {file : FileBytes} {text : List Char} {r : PortRange} {start stop : Nat}

theorem FileBytes.text_ok_iff : file.text = .ok text ↔ file = .ok (Text.Utf8.encode text) := by
  cases file with
  | error why => simp [FileBytes.text]
  | ok bytes =>
    rw [Except.ok.injEq, ← Text.Utf8.decode?_eq_some_iff, FileBytes.text]
    cases Text.Utf8.decode? bytes with
    | none => simp
    | some found => simp

theorem Pool.exists_refusal_iff {η : Type} {pool : Pool η} {policy : Policy} {number : Int} :
    (∃ refusal, pool.reserve policy number = .error refusal) ↔ policy.isLeasable number = false := by
  unfold Policy.isLeasable
  cases hcheck : policy.check number with
  | error refusal => exact iff_of_true ⟨refusal, reserve_refused hcheck⟩ rfl
  | ok p =>
    refine iff_of_false ?_ nofun
    cases htaken : pool.taken.contains p with
    | true => simp [reserve_taken hcheck htaken]
    | false => simp [reserve_free hcheck htaken]

namespace Ephemeral

/-- The file is text whose first two words are these numbers of ports. -/
def Reports (file : FileBytes) (start stop : Nat) : Prop :=
  ∃ text first second, file = .ok (Text.Utf8.encode text) ∧ FirstWords text first second ∧
    Numeral 65536 first start ∧ Numeral 65536 second stop

def Credible (file : FileBytes) (start stop : Nat) : Prop :=
  Reports file start stop ∧ start ≤ stop ∧ 1024 ≤ stop

theorem port?_eq_some_iff {word : List Char} {p : Port} :
    port? word = some p ↔ Numeral 65536 word p.val := by
  rw [port?, Option.bind_eq_some_iff, ← Text.natBelow?_eq_some_iff]
  constructor
  · rintro ⟨n, hn, hp⟩
    rwa [Port.ofNat?_eq_some_iff.mp hp]
  · exact fun h => ⟨p.val, h, Port.ofNat?_val p⟩

theorem ofProcText?_eq_some_iff : ofProcText? text = some r ↔
    ∃ first second, FirstWords text first second ∧ Numeral 65536 first r.start.val ∧
      Numeral 65536 second r.stop.val := by
  simp only [Text.firstWords_iff, ← port?_eq_some_iff, ofProcText?]
  constructor
  · intro h
    unfold ofWords? at h
    split at h
    · rename_i first second more hwords
      obtain ⟨start, hstart, h⟩ := Option.bind_eq_some_iff.mp h
      obtain ⟨stop, hstop, h⟩ := Option.bind_eq_some_iff.mp h
      obtain rfl := Option.some.inj h
      exact ⟨first, second, ⟨more, hwords⟩, hstart, hstop⟩
    · cases h
  · rintro ⟨first, second, ⟨more, hwords⟩, hstart, hstop⟩
    rw [hwords, ofWords?, hstart, hstop]
    rfl

theorem detect_eq_some_iff : (detect file).1 = some r ↔ Reports file r.start.val r.stop.val := by
  have htext : (detect file).1 = some r ↔ ∃ text, file.text = .ok text ∧ ofProcText? text = some r := by
    unfold detect
    cases file.text <;> simp
  simp only [htext, FileBytes.text_ok_iff, ofProcText?_eq_some_iff, Reports, exists_and_left]

theorem exists_reports (h : Reports file start stop) :
    ∃ r : PortRange, r.start.val = start ∧ r.stop.val = stop := by
  obtain ⟨text, first, second, -, -, ⟨_, -, -, -, -, hstart⟩, ⟨_, -, -, -, -, hstop⟩⟩ := h
  exact ⟨⟨⟨start, hstart⟩, ⟨stop, hstop⟩⟩, rfl, rfl⟩

theorem usable_credible (hle : r.start ≤ r.stop) (hhigh : Port.lowest ≤ r.stop) :
    (usable (some r)).1 = ⟨max Port.lowest r.start, r.stop⟩ := by
  rw [usable, if_pos ⟨hle, hhigh⟩]
  split
  · rename_i hlow
    rw [max_eq_right hlow]
  · rename_i hlow
    rw [max_eq_left (le_of_not_ge hlow)]

theorem usable_default {detected : Option PortRange}
    (h : ∀ r ∈ detected, ¬ (r.start ≤ r.stop ∧ Port.lowest ≤ r.stop)) :
    (usable detected).1 = .defaultExcluded := by
  cases detected with
  | none => rfl
  | some r => rw [usable, if_neg (h r rfl)]

/-- What the source answers when it is asked again and again, and what the file holds each time. -/
def Source.answers : Source → List FileBytes → List PortRange
  | _, [] => []
  | source, file :: files =>
    let (r, _, source) := source.range file
    r :: answers source files

theorem Source.answers_known (r : PortRange) (files : List FileBytes) :
    answers ⟨some r⟩ files = List.replicate files.length r := by
  induction files with
  | nil => rfl
  | cons file files ih => rw [answers, List.length_cons, List.replicate_succ, ← ih]; rfl

theorem Source.answers_fresh (file : FileBytes) (later : List FileBytes) :
    answers {} (file :: later) =
      List.replicate (later.length + 1) (usable (detect file).1).1 := by
  rw [List.replicate_succ, ← answers_known]
  rfl

/-- A pool that excludes the range leases no port from `start` to `stop`, and it refuses no other port from
1024 on. -/
structure KeepsOff (r : PortRange) (start stop : Nat) : Prop where
  contains_iff : ∀ p : Port, 1024 ≤ p.val → (r.contains p = true ↔ start ≤ p.val ∧ p.val ≤ stop)
  candidate_iff : ∀ policy : Policy, policy.excluded = r → ∀ p : Port,
    policy.isCandidate p = true ↔ 1024 ≤ p.val ∧ ¬ (start ≤ p.val ∧ p.val ≤ stop)
  refused_iff : ∀ policy : Policy, policy.excluded = r → ∀ (η : Type) (pool : Pool η) (number : Int),
    (∃ refusal, pool.reserve policy number = .error refusal) ↔
      number < 1024 ∨ 65535 < number ∨ start ≤ number ∧ number ≤ stop
  live : ∀ (setting : Script.Setting) (m : Script.Machine), setting.policy.excluded = r →
    Script.Reachable setting m → ∀ id p, m.Live id p → ¬ (start ≤ p.val ∧ p.val ≤ stop)

theorem keepsOff_of_contains
    (h : ∀ p : Port, 1024 ≤ p.val → (r.contains p = true ↔ start ≤ p.val ∧ p.val ≤ stop)) :
    KeepsOff r start stop := by
  have hcandidate (policy : Policy) (hpolicy : policy.excluded = r) (p : Port) :
      policy.isCandidate p = true ↔ 1024 ≤ p.val ∧ ¬ (start ≤ p.val ∧ p.val ≤ stop) := by
    rw [Policy.isCandidate_iff, hpolicy, ← Bool.not_eq_true]
    exact and_congr_right fun hp => not_congr (h p hp)
  refine ⟨h, hcandidate, ?_, ?_⟩
  · intro policy hpolicy η pool number
    rw [Pool.exists_refusal_iff, ← Bool.not_eq_true, Policy.isLeasable_iff]
    simp only [hcandidate policy hpolicy]
    constructor
    · intro hnone
      by_contra hin
      obtain ⟨n, rfl⟩ := Int.eq_ofNat_of_zero_le (by omega : 0 ≤ number)
      exact hnone ⟨⟨n, by omega⟩, rfl, by dsimp only; omega⟩
    · rintro hout ⟨p, rfl, hp⟩
      have hlt := p.isLt
      omega
  · intro setting m hpolicy hreachable id p hlive
    have hcheck := Script.Machine.Live.leasable hreachable.sound hlive
    exact ((hcandidate _ hpolicy p).mp (Policy.check_ok_iff.mp hcheck).2).2

theorem credible_iff_detect : Credible file start stop ↔
    ∃ r, (detect file).1 = some r ∧ r.start.val = start ∧ r.stop.val = stop ∧
      r.start ≤ r.stop ∧ Port.lowest ≤ r.stop := by
  constructor
  · rintro ⟨hreports, hle, hhigh⟩
    obtain ⟨r, rfl, rfl⟩ := exists_reports hreports
    exact ⟨r, detect_eq_some_iff.mpr hreports, rfl, rfl, hle, hhigh⟩
  · rintro ⟨r, hdetect, rfl, rfl, hle, hhigh⟩
    exact ⟨detect_eq_some_iff.mp hdetect, hle, hhigh⟩

structure Detects (file : FileBytes) (r : PortRange) : Prop where
  usable : 1024 ≤ r.start.val ∧ r.start ≤ r.stop
  exact : ∀ start stop, Credible file start stop → KeepsOff r start stop
  fallback : (¬ ∃ start stop, Credible file start stop) → r = ⟨49152, 65535⟩

theorem detects_credible (hdetect : (detect file).1 = some r) (hle : r.start ≤ r.stop)
    (hhigh : Port.lowest ≤ r.stop) : Detects file ⟨max Port.lowest r.start, r.stop⟩ where
  usable := ⟨le_max_left Port.lowest r.start, max_le hhigh hle⟩
  exact start stop hcredible := by
    obtain ⟨r', hdetect', rfl, rfl, -⟩ := credible_iff_detect.mp hcredible
    obtain rfl := Option.some.inj (hdetect.symm.trans hdetect')
    refine keepsOff_of_contains fun p hp => ?_
    rw [PortRange.contains_iff, max_le_iff, and_iff_right (show Port.lowest ≤ p from hp)]
    rfl
  fallback hnone := absurd ⟨_, _, credible_iff_detect.mpr ⟨r, hdetect, rfl, rfl, hle, hhigh⟩⟩ hnone

theorem detects_default
    (h : ∀ r ∈ (detect file).1, ¬ (r.start ≤ r.stop ∧ Port.lowest ≤ r.stop)) :
    Detects file .defaultExcluded where
  usable := by decide
  exact start stop hcredible := by
    obtain ⟨r, hdetect, -, -, hfit⟩ := credible_iff_detect.mp hcredible
    exact absurd hfit (h r hdetect)
  fallback _ := rfl

theorem usable_detects (file : FileBytes) : Detects file (Ephemeral.usable (detect file).1).1 := by
  by_cases h : ∀ r ∈ (detect file).1, ¬ (r.start ≤ r.stop ∧ Port.lowest ≤ r.stop)
  · rw [usable_default h]
    exact detects_default h
  · push Not at h
    obtain ⟨r, hdetect, hle, hhigh⟩ := h
    rw [hdetect, usable_credible hle hhigh]
    exact detects_credible hdetect hle hhigh

theorem detected_range (file : FileBytes) (later : List FileBytes) :
    ∃ r, Source.answers {} (file :: later) = List.replicate (later.length + 1) r ∧
      Detects file r :=
  ⟨_, Source.answers_fresh file later, usable_detects file⟩

def belowLowest : FileBytes := .ok (Text.Utf8.encode "500\t60000\n".toList)

theorem credible_belowLowest : Credible belowLowest 500 60000 :=
  ⟨⟨_, "500".toList, "60000".toList, rfl, Text.firstWords_iff.mpr ⟨[], by decide +kernel⟩,
    Text.natBelow?_eq_some_iff.mp (by decide +kernel), Text.natBelow?_eq_some_iff.mp (by decide +kernel)⟩,
    by decide, by decide⟩

theorem detected_range_belowLowest :
    Source.answers {} [belowLowest, .missing] = [⟨1024, 60000⟩, ⟨1024, 60000⟩] ∧
      KeepsOff ⟨1024, 60000⟩ 500 60000 := by
  have hanswers : Source.answers {} [belowLowest, .missing] = [⟨1024, 60000⟩, ⟨1024, 60000⟩] := by
    decide +kernel
  obtain ⟨r, hr, hdetects⟩ := detected_range belowLowest [.missing]
  obtain rfl := (List.cons.inj (hanswers.symm.trans hr)).1
  exact ⟨hanswers, hdetects.exact 500 60000 credible_belowLowest⟩

end Ephemeral

end PortLease
