import Mathlib.Data.List.DropRight
import PortLease.Proofs.Text.Utf8
import PortLease.Tool

/-!
The lines of what a tool prints, byte by byte. The decoder may replace bytes, but a byte of ASCII is always
one character to it, and it makes no such character of other bytes; so the lines can as well be cut first
and decoded one by one.
-/

namespace PortLease.Text

namespace Utf8

inductive Pending.Wide : Pending → Prop
  | ground : Wide .ground
  | tail {left low high value : Nat} (hlow : 0x80 ≤ low)
      (hlast : left ≤ 1 → 0x80 ≤ value * 64 + (low - 0x80))
      (hmore : 2 ≤ value * 64 + (low - 0x80)) : Wide (.tail left low high value)

theorem lead_ascii {b : Nat} (h : b < 0x80) : lead b = .inl (some (Char.ofNat b)) := if_pos h

theorem Pending.Wide.of_lead {b : Nat} {state : Pending} (h : lead b = .inr state) : state.Wide := by
  cases Leads.of_eq h <;> (refine .tail ?_ ?_ ?_ <;> omega)

theorem Pending.Wide.next {left low high value b : Nat} (h : Wide (.tail left low high value))
    (hb : low ≤ b) : Wide (.tail (left - 1) 0x80 0xBF (value * 64 + (b - 0x80))) := by
  cases h with
  | tail hlow hlast hmore => refine .tail ?_ ?_ ?_ <;> omega

theorem itemsFrom_ascii {state : Pending} (h : state.Wide) (before : List UInt8) {c : UInt8}
    (hc : c.toNat < 0x80) (after : List UInt8) :
    itemsFrom state (before ++ c :: after) =
      itemsFrom state before ++ some (Char.ofNat c.toNat) :: itemsFrom .ground after := by
  fun_induction itemsFrom state before with
  | case1 => simp only [List.nil_append, itemsFrom, lead_ascii hc]
  | case2 left low high value =>
    cases h with
    | tail hlow =>
      have hout : ¬ (low ≤ c.toNat ∧ c.toNat ≤ high) := by omega
      simp only [List.nil_append, itemsFrom, if_neg hout, lead_ascii hc, List.cons_append]
  | case3 b bs item hlead ih =>
    simp only [List.cons_append, itemsFrom, hlead, ih .ground]
  | case4 b bs next hlead ih => simp only [List.cons_append, itemsFrom, hlead, ih (.of_lead hlead)]
  | case5 left low high value b bs hin value' hlast ih =>
    simp only [List.cons_append, itemsFrom, if_pos hin, if_pos hlast, ih .ground, value']
  | case6 left low high value b bs hin value' hlast ih =>
    simp only [List.cons_append, itemsFrom, if_pos hin, if_neg hlast]
    exact ih (h.next hin.1)
  | case7 left low high value b bs hout item hlead ih =>
    simp only [List.cons_append, itemsFrom, if_neg hout, hlead, ih .ground]
  | case8 left low high value b bs hout next hlead ih =>
    simp only [List.cons_append, itemsFrom, if_neg hout, hlead, ih (.of_lead hlead)]

theorem toNat_ofNat (n : Nat) : (Char.ofNat n).toNat = if n.isValidChar then n else 0 := by
  by_cases h : n.isValidChar
  · rw [if_pos h, Char.ofNat, dif_pos h]
    rfl
  · rw [if_neg h, Char.ofNat, dif_neg h]
    rfl

theorem ofNat_ne {n m : Nat} (hn : n < 0x80) (hm : m < 0x80 → m ≠ n) (hpos : 0 < n) :
    Char.ofNat m ≠ Char.ofNat n := by
  intro heq
  have hval := congrArg Char.toNat heq
  have hvalid : n.isValidChar := .inl (by omega)
  rw [toNat_ofNat, toNat_ofNat, if_pos hvalid] at hval
  split at hval
  · exact hm (by omega) hval
  · omega

theorem lead_ne {c : UInt8} (hc : c.toNat < 0x80) (hpos : 0 < c.toNat) {b : Nat} (hb : b ≠ c.toNat)
    {item : Option Char} (hlead : lead b = .inl item) : some (Char.ofNat c.toNat) ≠ item := by
  cases Leads.of_eq hlead with
  | ascii => exact fun heq => ofNat_ne hc (fun _ => hb) hpos (Option.some.inj heq).symm
  | none => exact Option.some_ne_none _

theorem itemsFrom_notMem {state : Pending} (h : state.Wide) {c : UInt8} (hc : c.toNat < 0x80)
    (hpos : 0 < c.toNat) {bytes : List UInt8} (hbytes : c ∉ bytes) :
    some (Char.ofNat c.toNat) ∉ itemsFrom state bytes := by
  have hne {b : UInt8} {bs : List UInt8} (h : c ∉ b :: bs) : b.toNat ≠ c.toNat ∧ c ∉ bs := by
    rw [List.mem_cons, not_or] at h
    exact ⟨fun heq => h.1 (UInt8.toNat_inj.mp heq).symm, h.2⟩
  fun_induction itemsFrom state bytes with
  | case1 => exact List.not_mem_nil
  | case2 => exact fun hmem => Option.some_ne_none _ (List.mem_singleton.mp hmem)
  | case3 b bs item hitem ih =>
    obtain ⟨hb, hbs⟩ := hne hbytes
    rw [List.mem_cons, not_or]
    exact ⟨lead_ne hc hpos hb hitem, ih .ground hbs⟩
  | case4 b bs next hnext ih => exact ih (.of_lead hnext) (hne hbytes).2
  | case5 left low high value b bs hin value' hlast ih =>
    rw [List.mem_cons, not_or]
    refine ⟨fun heq => ?_, ih .ground (hne hbytes).2⟩
    -- the last byte of a longer character makes a number beyond ASCII
    cases h with
    | tail hlow hbig =>
      have hwide := hbig hlast
      exact ofNat_ne hc (fun hsmall => by omega) hpos (Option.some.inj heq).symm
  | case6 left low high value b bs hin value' hlast ih => exact ih (h.next hin.1) (hne hbytes).2
  | case7 left low high value b bs hout item hitem ih =>
    obtain ⟨hb, hbs⟩ := hne hbytes
    rw [List.mem_cons, List.mem_cons, not_or, not_or]
    exact ⟨Option.some_ne_none _, lead_ne hc hpos hb hitem, ih .ground hbs⟩
  | case8 left low high value b bs hout next hnext ih =>
    rw [List.mem_cons, not_or]
    exact ⟨Option.some_ne_none _, ih (.of_lead hnext) (hne hbytes).2⟩

theorem itemsFrom_tail_ne_nil (left low high value : Nat) (bytes : List UInt8) :
    itemsFrom (.tail left low high value) bytes ≠ [] := by
  induction bytes generalizing left low high value with
  | nil => exact List.cons_ne_nil _ _
  | cons b bs ih =>
    unfold itemsFrom
    split
    · simp only
      split
      · exact List.cons_ne_nil _ _
      · exact ih _ _ _ _
    · split <;> exact List.cons_ne_nil _ _

theorem lead_ne_ground (b : Nat) : lead b ≠ .inr .ground := by
  intro h
  cases Leads.of_eq h

theorem decodeLossy_ne_nil (b : UInt8) (bs : List UInt8) : decodeLossy (b :: bs) ≠ [] := by
  intro h
  rw [decodeLossy, List.map_eq_nil_iff, items, itemsFrom] at h
  split at h
  · cases h
  · rename_i state hlead
    cases state with
    | ground => exact lead_ne_ground _ hlead
    | tail => exact itemsFrom_tail_ne_nil _ _ _ _ _ h

theorem decodeLossy_ascii (before : List UInt8) {c : UInt8} (hc : c.toNat < 0x80)
    (after : List UInt8) : decodeLossy (before ++ c :: after) =
      decodeLossy before ++ Char.ofNat c.toNat :: decodeLossy after := by
  rw [decodeLossy, items, itemsFrom_ascii .ground before hc, List.map_append, List.map_cons]
  rfl

theorem decodeLossy_notMem {c : UInt8} (hc : c.toNat < 0x80) (hpos : 0 < c.toNat)
    {bytes : List UInt8} (hbytes : c ∉ bytes) : Char.ofNat c.toNat ∉ decodeLossy bytes := by
  intro hmem
  obtain ⟨item, hitem, heq⟩ := List.mem_map.mp hmem
  cases item with
  | none =>
    have hother : Char.ofNat 0xFFFD = Char.ofNat c.toNat := heq
    exact ofNat_ne hc (fun hsmall => by omega) hpos hother
  | some d =>
    rw [Option.getD_some] at heq
    exact itemsFrom_notMem .ground hc hpos hbytes (heq ▸ hitem)

end Utf8

open Utf8 (decodeLossy decodeLossy_ascii decodeLossy_notMem decodeLossy_ne_nil)

theorem separator_induction {α : Type} (sep : α) {P : List α → Prop}
    (last : ∀ piece, sep ∉ piece → P piece)
    (cut : ∀ piece rest, sep ∉ piece → P rest → P (piece ++ sep :: rest)) (whole : List α) : P whole := by
  induction hn : whole.length using Nat.strong_induction_on generalizing whole with
  | _ n ih =>
    by_cases hmem : sep ∈ whole
    · obtain ⟨piece, rest, rfl, hpiece⟩ := List.eq_append_cons_of_mem hmem
      exact cut piece rest hpiece (ih _ (by rw [← hn]; simp; omega) rest rfl)
    · exact last whole hmem

/-- The pieces between line feeds; behind the last line feed there is no piece if nothing follows. -/
def pieces (bytes : List UInt8) : List (List UInt8) :=
  let all := bytes.splitOn 0x0A
  if all.getLast? = some [] then all.dropLast else all

def byteLines (bytes : List UInt8) : List (List Char) :=
  (pieces bytes).map fun piece => decodeLossy (piece.rdropWhile (· == 0x0D))

theorem pieces_cut {piece : List UInt8} (h : 0x0A ∉ piece) (rest : List UInt8) :
    pieces (piece ++ 0x0A :: rest) = piece :: pieces rest := by
  have hsplit := List.splitOn_append_cons_self_of_not_mem h rest
  obtain ⟨first, others, hrest⟩ := List.exists_cons_of_ne_nil
    (List.splitOn_ne_nil (0x0A : UInt8) rest)
  simp only [pieces, hsplit, hrest, List.getLast?_cons_cons, List.dropLast_cons_cons]
  split <;> rfl

theorem pieces_last {piece : List UInt8} (h : 0x0A ∉ piece) :
    pieces piece = if piece = [] then [] else [piece] := by
  simp [pieces, List.splitOn_eq_singleton h]

theorem closedLines_cut {line : List Char} (h : '\n' ∉ line) (rest : List Char) :
    closedLines (line ++ '\n' :: rest) = (line ++ ['\n']) :: closedLines rest := by
  induction line with
  | nil => rfl
  | cons c line ih =>
    rw [List.mem_cons, not_or] at h
    rw [List.cons_append, closedLines, if_neg (Ne.symm h.1), ih h.2]
    rfl

theorem closedLines_last {line : List Char} (h : '\n' ∉ line) :
    closedLines line = if line = [] then [] else [line] := by
  induction line with
  | nil => rfl
  | cons c line ih =>
    rw [List.mem_cons, not_or] at h
    rw [closedLines, if_neg (Ne.symm h.1), ih h.2]
    cases line <;> rfl

theorem dropEndWhile_lineFeed (line : List Char) :
    dropEndWhile (· == '\r') (dropLineEnd (line ++ ['\n'])) = line.rdropWhile (· == '\r') := by
  unfold dropLineEnd
  rw [List.reverse_append, List.reverse_singleton, List.singleton_append]
  split
  · rename_i rest heq
    have hline : line = rest.reverse ++ ['\r'] := by
      rw [← List.reverse_reverse line, (List.cons.inj heq).2, List.reverse_cons]
    rw [hline, List.rdropWhile_concat_pos (· == '\r') _ _ rfl]
    rfl
  · rename_i rest _ heq
    rw [← (List.cons.inj heq).2, List.reverse_reverse]
    rfl
  · rename_i hno
    exact absurd rfl (hno line.reverse)

theorem dropLineEnd_last {line : List Char} (h : '\n' ∉ line) : dropLineEnd line = line := by
  unfold dropLineEnd
  have hmem {rest : List Char} (heq : line.reverse = '\n' :: rest) : '\n' ∈ line := by
    rw [← List.mem_reverse, heq]
    exact List.mem_cons_self
  split
  · rename_i heq
    exact absurd (hmem heq) h
  · rename_i heq
    exact absurd (hmem heq) h
  · rfl

theorem getLast?_decodeLossy {bytes : List UInt8} (h : bytes.getLast? ≠ some 0x0D) :
    (decodeLossy bytes).getLast? ≠ some '\r' := by
  induction bytes using separator_induction (0x0D : UInt8) with
  | last piece hpiece =>
    intro hlast
    exact decodeLossy_notMem (c := 0x0D) (by decide) (by decide) hpiece (List.mem_of_getLast? hlast)
  | cut before after _ ih =>
    cases after with
    | nil => exact absurd List.getLast?_concat h
    | cons b after =>
      rw [List.append_cons, List.getLast?_append_of_ne_nil _ (List.cons_ne_nil b after)] at h
      rw [decodeLossy_ascii before (c := 0x0D) (by decide), List.append_cons,
        List.getLast?_append_of_ne_nil _ (decodeLossy_ne_nil b after)]
      exact ih h

theorem decodeLossy_rdropWhile (piece : List UInt8) :
    decodeLossy (piece.rdropWhile (· == 0x0D)) = (decodeLossy piece).rdropWhile (· == '\r') := by
  induction piece using List.reverseRecOn with
  | nil => rfl
  | append_singleton piece b ih =>
    by_cases hb : b = 0x0D
    · subst hb
      rw [List.rdropWhile_concat_pos (· == 0x0D) _ _ rfl, ih,
        decodeLossy_ascii piece (c := 0x0D) (by decide) []]
      exact (List.rdropWhile_concat_pos (· == '\r') _ _ rfl).symm
    · have hlast : (decodeLossy (piece ++ [b])).getLast? ≠ some '\r' := by
        apply getLast?_decodeLossy
        rw [List.getLast?_concat]
        exact fun heq => hb (Option.some.inj heq)
      rw [List.rdropWhile_concat_neg (· == 0x0D) _ _ (by simpa using hb)]
      refine (List.rdropWhile_eq_self_iff.mpr fun hne hcr => hlast ?_).symm
      rw [List.getLast?_eq_some_getLast hne, beq_iff_eq.mp hcr]

end PortLease.Text

namespace PortLease

open Text

theorem ToolOutput.splitLines_eq (bytes : List UInt8) : splitLines bytes = byteLines bytes := by
  induction bytes using separator_induction (0x0A : UInt8) with
  | cut piece rest hpiece ih =>
    have hfeed : '\n' ∉ Utf8.decodeLossy piece :=
      Utf8.decodeLossy_notMem (c := 0x0A) (by decide) (by decide) hpiece
    have hcut : closedLines (Utf8.decodeLossy (piece ++ 0x0A :: rest)) =
        (Utf8.decodeLossy piece ++ ['\n']) :: closedLines (Utf8.decodeLossy rest) := by
      rw [Utf8.decodeLossy_ascii piece (c := 0x0A) (by decide)]
      exact closedLines_cut hfeed _
    rw [splitLines, Text.lines, hcut, byteLines, pieces_cut hpiece, List.map_cons, List.map_cons,
      List.map_cons, dropEndWhile_lineFeed, ← decodeLossy_rdropWhile]
    exact congrArg _ ih
  | last bytes hbytes =>
    have hfeed : '\n' ∉ Utf8.decodeLossy bytes :=
      Utf8.decodeLossy_notMem (c := 0x0A) (by decide) (by decide) hbytes
    rw [splitLines, Text.lines, closedLines_last hfeed, byteLines, pieces_last hbytes]
    cases bytes with
    | nil => rfl
    | cons b bs =>
      rw [if_neg (Utf8.decodeLossy_ne_nil b bs), if_neg (List.cons_ne_nil b bs), List.map_singleton,
        List.map_singleton, List.map_singleton, dropLineEnd_last hfeed, decodeLossy_rdropWhile]
      rfl

end PortLease
