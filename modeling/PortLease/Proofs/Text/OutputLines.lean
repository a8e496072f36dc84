import Mathlib.Data.List.Forall2
import PortLease.Proofs.Text.ByteLines
import PortLease.Proofs.Text.Utf8

namespace PortLease

namespace Text

variable {output piece : List UInt8} {text : List Char}

/-- The text of the bytes, with U+FFFD for each garbled part. -/
def Utf8.ReadsAs (bytes : List UInt8) (text : List Char) : Prop :=
  ∃ found, Utf8.Decodes bytes found ∧ text = found.map fun item => item.getD '\uFFFD'

theorem Utf8.readsAs_iff : ReadsAs output text ↔ decodeLossy output = text := by
  simp only [ReadsAs, decodes_iff, exists_eq_left']
  exact eq_comm

theorem Utf8.lineFeed_notMem_encode (h : '\n' ∉ text) : 0x0A ∉ encode text := by
  intro hmem
  obtain ⟨before, after, hcut⟩ := List.append_of_mem hmem
  apply h
  rw [← decodeLossy_encode text, hcut, decodeLossy_ascii before (c := 0x0A) (by decide)]
  exact List.mem_append_right _ List.mem_cons_self

theorem lineFeed_notMem_of_mem_pieces (h : piece ∈ pieces output) : 0x0A ∉ piece := by
  induction output using separator_induction (0x0A : UInt8) with
  | last only honly =>
    rw [pieces_last honly] at h
    split at h
    · cases h
    · rwa [List.mem_singleton.mp h]
  | cut first rest hfirst ih =>
    rw [pieces_cut hfirst, List.mem_cons] at h
    obtain rfl | h := h
    · exact hfirst
    · exact ih h

theorem length_pieces (bytes : List UInt8) : (pieces bytes).length =
    bytes.count 0x0A + if bytes.getLast?.all (· == 0x0A) then 0 else 1 := by
  induction bytes using separator_induction (0x0A : UInt8) with
  | last only honly =>
    rw [pieces_last honly, List.count_eq_zero_of_not_mem honly]
    cases hlast : only.getLast? with
    | none => simp [List.getLast?_eq_none_iff.mp hlast]
    | some b =>
      have hb : b ≠ 0x0A := fun heq => honly (heq ▸ List.mem_of_getLast? hlast)
      have hne : only ≠ [] := by
        rintro rfl
        cases hlast
      simp [hne, hb]
  | cut first rest hfirst ih =>
    rw [pieces_cut hfirst, List.length_cons, ih, List.count_append,
      List.count_eq_zero_of_not_mem hfirst, List.count_cons_self, List.getLast?_append_cons]
    cases rest with
    | nil => rfl
    | cons b rest =>
      rw [List.getLast?_cons_cons]
      omega

theorem mem_byteLines {line : List Char} (h : line ∈ byteLines output) :
    '\n' ∉ line ∧ line.getLast? ≠ some '\r' := by
  obtain ⟨piece, hpiece, rfl⟩ := List.mem_map.mp h
  constructor
  · apply Utf8.decodeLossy_notMem (c := 0x0A) (by decide) (by decide)
    have htrimmed := List.rdropWhile_prefix (fun b : UInt8 => b == 0x0D) piece
    exact fun hmem => lineFeed_notMem_of_mem_pieces hpiece (htrimmed.subset hmem)
  · apply getLast?_decodeLossy
    intro hlast
    have hne := List.ne_nil_of_mem (List.mem_of_getLast? hlast)
    have hnot := List.rdropWhile_last_not (fun b : UInt8 => b == 0x0D) piece hne
    rw [List.getLast?_eq_some_getLast hne, Option.some_inj] at hlast
    exact hnot (beq_iff_eq.mpr hlast)

inductive LineEnd where
  | lineFeed
  | returnLineFeed
  deriving DecidableEq, Repr

def LineEnd.bytes : LineEnd → List UInt8
  | .lineFeed => [0x0A]
  | .returnLineFeed => [0x0D, 0x0A]

def writtenLines (lines : List (List Char × LineEnd)) : List UInt8 :=
  lines.flatMap fun line => Utf8.encode line.1 ++ line.2.bytes

theorem byteLines_cut (h : 0x0A ∉ piece) (rest : List UInt8) :
    byteLines (piece ++ 0x0A :: rest) =
      (Utf8.decodeLossy piece).rdropWhile (· == '\r') :: byteLines rest := by
  rw [byteLines, pieces_cut h, List.map_cons, decodeLossy_rdropWhile]
  rfl

theorem byteLines_line (hfeed : '\n' ∉ text) (hreturn : text.getLast? ≠ some '\r') (ending : LineEnd)
    (rest : List UInt8) :
    byteLines (Utf8.encode text ++ ending.bytes ++ rest) = text :: byteLines rest := by
  have hencoded := Utf8.lineFeed_notMem_encode hfeed
  have htext : text.rdropWhile (· == '\r') = text := by
    refine List.rdropWhile_eq_self_iff.mpr fun hne hlast => hreturn ?_
    rw [List.getLast?_eq_some_getLast hne, beq_iff_eq.mp hlast]
  cases ending with
  | lineFeed =>
    have hcut := byteLines_cut hencoded rest
    rw [Utf8.decodeLossy_encode, htext] at hcut
    rw [LineEnd.bytes, List.append_assoc]
    exact hcut
  | returnLineFeed =>
    have hpiece : 0x0A ∉ Utf8.encode text ++ [0x0D] := by
      rw [List.mem_append, not_or]
      exact ⟨hencoded, by decide⟩
    have hdecoded : Utf8.decodeLossy (Utf8.encode text ++ [0x0D]) = text ++ ['\r'] := by
      rw [Utf8.decodeLossy_ascii _ (c := 0x0D) (by decide), Utf8.decodeLossy_encode]
      rfl
    have hcut := byteLines_cut hpiece rest
    rw [hdecoded, List.rdropWhile_concat_pos (· == '\r') _ _ rfl, htext] at hcut
    rw [LineEnd.bytes, List.append_assoc]
    rwa [List.append_assoc] at hcut

theorem byteLines_writtenLines {lines : List (List Char × LineEnd)}
    (h : ∀ line ∈ lines, '\n' ∉ line.1 ∧ line.1.getLast? ≠ some '\r') :
    byteLines (writtenLines lines) = lines.map Prod.fst := by
  induction lines with
  | nil => rfl
  | cons line lines ih =>
    obtain ⟨hfeed, hreturn⟩ := h line List.mem_cons_self
    have hrest := ih fun line hmem => h line (List.mem_cons_of_mem _ hmem)
    rw [writtenLines, List.flatMap_cons, byteLines_line hfeed hreturn, List.map_cons, ← hrest]
    rfl

end Text

namespace ToolOutput

open Text (LineEnd Utf8.ReadsAs byteLines writtenLines)

structure KeepsLines (output : List UInt8) : Prop where
  pieces : ∀ lines, splitLines output = lines ↔
    List.Forall₂ (fun piece line => Utf8.ReadsAs (piece.rdropWhile (· == 0x0D)) line)
      (Text.pieces output) lines
  length : (splitLines output).length =
    output.count 0x0A + if output.getLast?.all (· == 0x0A) then 0 else 1
  ends : ∀ line ∈ splitLines output, '\n' ∉ line ∧ line.getLast? ≠ some '\r'

theorem keepsLines (output : List UInt8) : KeepsLines output where
  pieces lines := by
    simp only [Text.Utf8.readsAs_iff]
    rw [splitLines_eq, byteLines, ← List.forall₂_eq_eq_eq, List.forall₂_map_left_iff]
  length := by rw [splitLines_eq, byteLines, List.length_map, Text.length_pieces]
  ends line h := Text.mem_byteLines (splitLines_eq output ▸ h)

theorem lines_survive_garbling : (∀ output, KeepsLines output) ∧
    ∀ lines : List (List Char × LineEnd),
      (∀ line ∈ lines, '\n' ∉ line.1 ∧ line.1.getLast? ≠ some '\r') →
        splitLines (writtenLines lines) = lines.map Prod.fst := by
  refine ⟨keepsLines, fun lines h => ?_⟩
  rw [splitLines_eq]
  exact Text.byteLines_writtenLines h

theorem lines_survive_garbling_mixed :
    splitLines (writtenLines [("a\rb".toList, .returnLineFeed), ([], .lineFeed),
      ("né".toList, .lineFeed)]) = ["a\rb".toList, [], "né".toList] :=
  lines_survive_garbling.2 _ (by decide)

example : splitLines [0x70, 0xE2, 0x82, 0x0A, 0x82, 0x0D, 0x0D, 0x0A, 0x6E] =
    ["p\uFFFD".toList, "\uFFFD".toList, "n".toList] := by decide

end ToolOutput

end PortLease
