import Mathlib.Algebra.Order.Ring.Nat
import Mathlib.Tactic.Ring
import Mathlib.Tactic.SplitIfs
import PortLease.Text.Utf8

/-!
The decoder of UTF-8 against the encodings of single characters. Where the bytes go on with the encoding of a
character, that character is read. Where they do not, one invalid stretch is reported for as many of them as
begin a character, or for one byte. Hence a text is read back from its encoding, and no other bytes are valid.
-/

namespace PortLease.Text.Utf8

open String (utf8EncodeChar)

variable {part rest bytes : List UInt8} {b : UInt8} {c d : Char} {state : Pending}

/-- No character is encoded where the part begins, and the part is the longest one that begins a character;
if its first byte begins none, it is that byte. -/
structure Garbled (part rest : List UInt8) : Prop where
  ne_nil : part ≠ []
  begins : part.length = 1 ∨ ∃ c, part <+: utf8EncodeChar c
  broken : ∀ c, ¬ utf8EncodeChar c <+: part ++ rest
  longest : ∀ b ∈ rest.head?, ∀ c, ¬ part ++ [b] <+: utf8EncodeChar c

/-- The characters that the bytes stand for, with `none` for each garbled part. -/
inductive Decodes : List UInt8 → List (Option Char) → Prop
  | nil : Decodes [] []
  | char {rest : List UInt8} {found : List (Option Char)} (c : Char) (hrest : Decodes rest found) :
      Decodes (utf8EncodeChar c ++ rest) (some c :: found)
  | garbled {part rest : List UInt8} {found : List (Option Char)} (hpart : Garbled part rest)
      (hrest : Decodes rest found) : Decodes (part ++ rest) (none :: found)

def Pending.Completes : Pending → List UInt8 → Char → Prop
  | .ground, bytes, c => utf8EncodeChar c = bytes
  | .tail .., [], _ => False
  | .tail left low high value, b :: bytes, c =>
    (low ≤ b.toNat ∧ b.toNat ≤ high) ∧
      if left ≤ 1 then bytes = [] ∧ c.toNat = value * 64 + (b.toNat - 0x80)
      else Completes (.tail (left - 1) 0x80 0xBF (value * 64 + (b.toNat - 0x80))) bytes c

def tails : Nat → Nat → List Nat
  | 0, _ => []
  | count + 1, n => (n / 64 ^ count % 64 + 0x80) :: tails count n

def codes (n : Nat) : List Nat :=
  if n < 0x80 then [n]
  else if n < 0x800 then (n / 64 + 0xC0) :: tails 1 n
  else if n < 0x10000 then (n / 4096 + 0xE0) :: tails 2 n
  else (n / 262144 + 0xF0) :: tails 3 n

inductive Leads (b : Nat) : Option Char ⊕ Pending → Prop
  | ascii (hb : b < 0x80) : Leads b (.inl (some (Char.ofNat b)))
  | two (hb : 0xC2 ≤ b ∧ b ≤ 0xDF) : Leads b (.inr (.tail 1 0x80 0xBF (b - 0xC0)))
  | three {low high : Nat} (hb : 0xE0 ≤ b ∧ b ≤ 0xEF)
      (hlow : b = 0xE0 ∧ low = 0xA0 ∨ b ≠ 0xE0 ∧ low = 0x80)
      (hhigh : b = 0xED ∧ high = 0x9F ∨ b ≠ 0xED ∧ high = 0xBF) :
      Leads b (.inr (.tail 2 low high (b - 0xE0)))
  | four {low high : Nat} (hb : 0xF0 ≤ b ∧ b ≤ 0xF4)
      (hlow : b = 0xF0 ∧ low = 0x90 ∨ b ≠ 0xF0 ∧ low = 0x80)
      (hhigh : b = 0xF4 ∧ high = 0x8F ∨ b ≠ 0xF4 ∧ high = 0xBF) :
      Leads b (.inr (.tail 3 low high (b - 0xF0)))
  | none (hb : 0x80 ≤ b ∧ b < 0xC2 ∨ 0xF4 < b) : Leads b (.inl none)

theorem leads_lead (b : Nat) : Leads b (lead b) := by
  unfold lead
  split_ifs with hascii htwo he0 hed hthree hf0 hfour hf4
  · exact .ascii hascii
  · exact .two htwo
  · subst he0
    exact .three (by decide) (by decide) (by decide)
  · subst hed
    exact .three (by decide) (by decide) (by decide)
  · exact .three (by omega) (.inr ⟨he0, rfl⟩) (.inr ⟨hed, rfl⟩)
  · subst hf0
    exact .four (by decide) (by decide) (by decide)
  · exact .four (by omega) (.inr ⟨hf0, rfl⟩) (.inr ⟨by omega, rfl⟩)
  · subst hf4
    exact .four (by decide) (by decide) (by decide)
  · exact .none (by omega)

theorem Leads.of_eq {b : Nat} {read : Option Char ⊕ Pending} (h : lead b = read) : Leads b read :=
  h ▸ leads_lead b

theorem toNat_bound (c : Char) :
    c.toNat < 0xD800 ∨ 0xDFFF < c.toNat ∧ c.toNat < 0x110000 := c.valid

theorem toNat_encodeChar (c : Char) : (utf8EncodeChar c).map UInt8.toNat = codes c.toNat := by
  have hbound := toNat_bound c
  have hbyte {n : Nat} (h : n < 256) : (UInt8.ofNat n).toNat = n := UInt8.toNat_ofNat_of_lt' h
  simp only [utf8EncodeChar, codes, tails, Nat.reducePow, Nat.div_one, Char.toNat] at *
  split_ifs
  all_goals first | omega | simp only [List.map_cons, List.map_nil, List.cons.injEq, and_true]
  · exact hbyte (by omega)
  · rw [hbyte (by omega), hbyte (by omega)]
    omega
  · rw [hbyte (by omega), hbyte (by omega), hbyte (by omega)]
    omega
  · rw [hbyte (by omega), hbyte (by omega), hbyte (by omega), hbyte (by omega)]
    omega

theorem encodeChar_eq_iff : utf8EncodeChar c = bytes ↔ codes c.toNat = bytes.map UInt8.toNat := by
  rw [← toNat_encodeChar, List.map_inj_right fun _ _ => UInt8.toNat_inj.mp]

theorem encodeChar_ne_nil (c : Char) : utf8EncodeChar c ≠ [] := by
  rw [ne_eq, encodeChar_eq_iff, codes]
  split_ifs <;> exact List.cons_ne_nil _ _

theorem codes_eq_cons_iff {n first : Nat} {behind : List Nat} : codes n = first :: behind ↔
    n < 0x80 ∧ n = first ∧ [] = behind ∨
    (0x80 ≤ n ∧ n < 0x800) ∧ n / 64 + 0xC0 = first ∧ tails 1 n = behind ∨
    (0x800 ≤ n ∧ n < 0x10000) ∧ n / 4096 + 0xE0 = first ∧ tails 2 n = behind ∨
    0x10000 ≤ n ∧ n / 262144 + 0xF0 = first ∧ tails 3 n = behind := by
  rw [codes]
  split_ifs <;> rw [List.cons.injEq] <;> grind

theorem encodeChar_of_lead (h : lead b.toNat = .inl (some d)) :
    utf8EncodeChar c = b :: bytes ↔ c = d ∧ bytes = [] := by
  cases Leads.of_eq h with
  | ascii hb =>
    have hvalid : b.toNat.isValidChar := .inl (by omega)
    have hd : c = Char.ofNat b.toNat ↔ c.toNat = b.toNat := by
      rw [← Char.toNat_inj, Char.ofNat, dif_pos hvalid]
      rfl
    rw [encodeChar_eq_iff, hd, List.map_cons, codes_eq_cons_iff]
    constructor
    · rintro (⟨-, hc, hbytes⟩ | ⟨-, hc, -⟩ | ⟨-, hc, -⟩ | ⟨-, hc, -⟩)
      · exact ⟨hc, List.map_eq_nil_iff.mp hbytes.symm⟩
      all_goals omega
    · rintro ⟨hc, rfl⟩
      exact .inl ⟨by omega, hc, rfl⟩

theorem encodeChar_of_lead_none (h : lead b.toNat = .inl none) : utf8EncodeChar c ≠ b :: bytes := by
  have hbound := toNat_bound c
  rw [ne_eq, encodeChar_eq_iff, List.map_cons, codes_eq_cons_iff]
  cases Leads.of_eq h with
  | none hb =>
    rintro (⟨hn, hc, -⟩ | ⟨hn, hc, -⟩ | ⟨hn, hc, -⟩ | ⟨hn, hc, -⟩) <;> omega

theorem codes_two {n first : Nat} {behind : List Nat} (h : 0xC2 ≤ first ∧ first ≤ 0xDF) :
    codes n = first :: behind ↔ tails 1 n = behind ∧ n / 64 = first - 0xC0 := by
  rw [codes_eq_cons_iff]
  constructor
  · rintro (⟨hn, hfirst, -⟩ | ⟨-, hfirst, htails⟩ | ⟨hn, hfirst, -⟩ | ⟨hn, hfirst, -⟩)
    · omega
    · exact ⟨htails, by omega⟩
    all_goals omega
  · rintro ⟨htails, hfirst⟩
    exact .inr (.inl ⟨by omega, by omega, htails⟩)

theorem codes_three {n first : Nat} {behind : List Nat} (h : 0xE0 ≤ first ∧ first ≤ 0xEF) :
    codes n = first :: behind ↔ tails 2 n = behind ∧ n / 4096 = first - 0xE0 ∧ 0x800 ≤ n := by
  rw [codes_eq_cons_iff]
  constructor
  · rintro (⟨hn, hfirst, -⟩ | ⟨hn, hfirst, -⟩ | ⟨hn, hfirst, htails⟩ | ⟨hn, hfirst, -⟩)
    · omega
    · omega
    · exact ⟨htails, by omega, hn.1⟩
    · omega
  · rintro ⟨htails, hfirst, hn⟩
    exact .inr (.inr (.inl ⟨by omega, by omega, htails⟩))

theorem codes_four {n first : Nat} {behind : List Nat} (h : 0xF0 ≤ first) (hn : n < 0x110000) :
    codes n = first :: behind ↔ tails 3 n = behind ∧ n / 262144 = first - 0xF0 ∧ 0x10000 ≤ n := by
  rw [codes_eq_cons_iff]
  constructor
  · rintro (⟨hn, hfirst, -⟩ | ⟨hn, hfirst, -⟩ | ⟨hn, hfirst, -⟩ | ⟨hn, hfirst, htails⟩)
    · omega
    · omega
    · omega
    · exact ⟨htails, by omega, hn⟩
  · rintro ⟨htails, hfirst, hn⟩
    exact .inr (.inr (.inr ⟨hn, by omega, htails⟩))

theorem completes_iff {count low high value : Nat} (hlow : 0x80 ≤ low) (hhigh : high ≤ 0xBF) :
    (Pending.tail (count + 1) low high value).Completes bytes c ↔
      tails (count + 1) c.toNat = bytes.map UInt8.toNat ∧ c.toNat / 64 ^ (count + 1) = value ∧
        low ≤ c.toNat / 64 ^ count % 64 + 0x80 ∧ c.toNat / 64 ^ count % 64 + 0x80 ≤ high := by
  induction count generalizing bytes low high value with
  | zero =>
    cases bytes with
    | nil => simp [Pending.Completes, tails]
    | cons x bytes =>
      simp only [Pending.Completes, tails, Nat.zero_add, Nat.le_refl, if_true, Nat.pow_zero,
        Nat.div_one, Nat.pow_one, List.map_cons, List.cons.injEq, List.nil_eq, List.map_eq_nil_iff]
      constructor
      · rintro ⟨hin, rfl, hc⟩
        refine ⟨⟨?_, rfl⟩, ?_⟩ <;> omega
      · rintro ⟨⟨hx, rfl⟩, hc⟩
        refine ⟨?_, rfl, ?_⟩ <;> omega
  | succ count ih =>
    cases bytes with
    | nil => simp [Pending.Completes, tails]
    | cons x bytes =>
      have hmore : ¬ count + 1 + 1 ≤ 1 := by omega
      have hdiv : c.toNat / 64 ^ (count + 1 + 1) = c.toNat / 64 ^ (count + 1) / 64 := by
        rw [Nat.div_div_eq_div_mul, Nat.pow_succ]
      rw [Pending.Completes, if_neg hmore, Nat.add_sub_cancel, ih (Nat.le_refl _) (Nat.le_refl _),
        hdiv, tails.eq_2 c.toNat (count + 1), List.map_cons, List.cons.injEq]
      constructor
      · rintro ⟨hin, htails, hc, -⟩
        refine ⟨⟨?_, htails⟩, ?_⟩ <;> omega
      · rintro ⟨⟨hx, htails⟩, hc⟩
        refine ⟨?_, htails, ?_, ?_⟩ <;> omega

theorem encodeChar_of_lead_state (h : lead b.toNat = .inr state) :
    utf8EncodeChar c = b :: bytes ↔ state.Completes bytes c := by
  have hbound := toNat_bound c
  rw [encodeChar_eq_iff, List.map_cons]
  -- the lead tells how many bytes there are, and so in which digits the number stands
  cases Leads.of_eq h with
  | two hb =>
    rw [codes_two hb, completes_iff (Nat.le_refl _) (Nat.le_refl _)]
    refine and_congr_right fun _ => ?_
    rw [Nat.zero_add, Nat.pow_one, Nat.pow_zero, Nat.div_one]
    omega
  | three hb hlow hhigh =>
    rw [codes_three hb, completes_iff (by omega) (by omega)]
    refine and_congr_right fun _ => ?_
    rw [Nat.pow_one, show 64 ^ (1 + 1) = 4096 from rfl]
    omega
  | four hb hlow hhigh =>
    rw [codes_four hb.1 (by omega), completes_iff (by omega) (by omega)]
    refine and_congr_right fun _ => ?_
    rw [show 64 ^ (2 + 1) = 262144 from rfl, show 64 ^ 2 = 4096 from rfl]
    omega

inductive Pending.Alive : Pending → Prop
  | tail {left low high value : Nat} (hlow : 0x80 ≤ low) (hhigh : high ≤ 0xBF)
      (hvalid : ∀ b, low ≤ b → b ≤ high → ∀ m < 64 ^ left,
        ((value * 64 + (b - 0x80)) * 64 ^ left + m).isValidChar) :
      Alive (.tail (left + 1) low high value)

theorem alive_of_lead (h : lead b.toNat = .inr state) : state.Alive := by
  cases Leads.of_eq h
  all_goals
    refine .tail (by omega) (by omega) fun x hlow hhigh m hm => ?_
    simp only [Nat.isValidChar]
    omega

theorem Pending.Alive.next {left low high value x : Nat} (h : Alive (.tail (left + 2) low high value))
    (hlow : low ≤ x) (hhigh : x ≤ high) :
    Alive (.tail (left + 1) 0x80 0xBF (value * 64 + (x - 0x80))) := by
  cases h with
  | tail _ _ hvalid =>
    refine .tail (Nat.le_refl _) (Nat.le_refl _) fun y hy hy' m hm => ?_
    have hdigit : (y - 0x80) * 64 ^ left + m < 64 ^ (left + 1) := calc
      (y - 0x80) * 64 ^ left + m < (y - 0x80) * 64 ^ left + 64 ^ left := Nat.add_lt_add_left hm _
      _ = (y - 0x80 + 1) * 64 ^ left := by ring
      _ ≤ 64 * 64 ^ left := Nat.mul_le_mul_right _ (by omega)
      _ = 64 ^ (left + 1) := by ring
    have hsum : ((value * 64 + (x - 0x80)) * 64 + (y - 0x80)) * 64 ^ left + m =
        (value * 64 + (x - 0x80)) * 64 ^ (left + 1) + ((y - 0x80) * 64 ^ left + m) := by ring
    rw [hsum]
    exact hvalid x hlow hhigh _ hdigit

theorem Pending.Alive.completes {left low high value : Nat} (h : Alive (.tail left low high value))
    (hlow : low ≤ b.toNat) (hhigh : b.toNat ≤ high) :
    ∃ bytes c, Completes (.tail left low high value) (b :: bytes) c := by
  cases h with
  | @tail left _ _ _ h1 h2 hvalid =>
    induction left generalizing low high value b with
    | zero =>
      have hchar := hvalid b.toNat hlow hhigh 0 (Nat.one_pos)
      rw [Nat.pow_zero, Nat.mul_one, Nat.add_zero] at hchar
      refine ⟨[], Char.ofNat (value * 64 + (b.toNat - 0x80)), ⟨hlow, hhigh⟩, rfl, ?_⟩
      rw [Char.ofNat, dif_pos hchar]
      rfl
    | succ left ih =>
      have hnext := Alive.next (.tail h1 h2 hvalid) hlow hhigh
      cases hnext with
      | tail h1' h2' hvalid' =>
        obtain ⟨bytes, c, hc⟩ := ih (b := 0x80) (by decide) (by decide) h1' h2' hvalid'
        refine ⟨0x80 :: bytes, c, ⟨hlow, hhigh⟩, ?_⟩
        rw [if_neg (by omega)]
        exact hc

theorem Pending.Completes.items (h : state.Completes bytes c) :
    itemsFrom state (bytes ++ rest) = some c :: itemsFrom .ground rest := by
  induction bytes generalizing state with
  | nil =>
    cases state with
    | ground => exact absurd h (encodeChar_ne_nil c)
    | tail => exact h.elim
  | cons b bytes ih =>
    rw [List.cons_append]
    cases state with
    | ground =>
      rw [itemsFrom]
      rcases hlead : lead b.toNat with (_ | d) | next
      · exact absurd h (encodeChar_of_lead_none hlead)
      · obtain ⟨rfl, rfl⟩ := (encodeChar_of_lead hlead).mp h
        rfl
      · exact ih ((encodeChar_of_lead_state hlead).mp h)
    | tail left low high value =>
      obtain ⟨hin, h⟩ := h
      rw [itemsFrom, if_pos hin]
      by_cases hlast : left ≤ 1
      · rw [if_pos hlast] at h
        obtain ⟨rfl, hc⟩ := h
        simp only [if_pos hlast, ← hc, Char.ofNat_toNat, List.nil_append]
      · rw [if_neg hlast] at h
        simp only [if_neg hlast]
        exact ih h

theorem Pending.Alive.items_garbled (h : state.Alive)
    (hbegins : part = [] ∨ ∃ more c, state.Completes (part ++ more) c)
    (hbroken : ∀ bytes c, state.Completes bytes c → ¬ bytes <+: part ++ rest)
    (hlongest : ∀ b ∈ rest.head?, ∀ more c, ¬ state.Completes (part ++ b :: more) c) :
    itemsFrom state (part ++ rest) = none :: itemsFrom .ground rest := by
  induction part generalizing state with
  | nil =>
    cases h with
    | @tail left low high value h1 h2 hvalid =>
      cases rest with
      | nil => rfl
      | cons b rest =>
        have hout : ¬ (low ≤ b.toNat ∧ b.toNat ≤ high) := by
          rintro ⟨hlow, hhigh⟩
          obtain ⟨more, c, hc⟩ := Alive.completes (.tail h1 h2 hvalid) hlow hhigh
          exact hlongest b rfl more c hc
        rw [List.nil_append]
        simp only [itemsFrom, if_neg hout]
        cases lead b.toNat <;> rfl
  | cons x part ih =>
    obtain hnil | ⟨more, c, hc⟩ := hbegins
    · cases hnil
    · cases h with
      | @tail left low high value h1 h2 hvalid =>
        obtain ⟨hin, hc⟩ := hc
        rw [List.cons_append, itemsFrom, if_pos hin]
        cases left with
        | zero =>
          exfalso
          rw [if_pos (Nat.le_refl 1)] at hc
          refine hbroken [x] c ⟨hin, ?_⟩ (List.prefix_append [x] _)
          rw [if_pos (Nat.le_refl 1)]
          exact ⟨rfl, hc.2⟩
        | succ left =>
          have hmore : ¬ left + 1 + 1 ≤ 1 := by omega
          simp only [if_neg hmore] at hc ⊢
          refine ih (Alive.next (.tail h1 h2 hvalid) hin.1 hin.2) (.inr ⟨more, c, hc⟩) ?_ ?_
          · intro bytes c hc hprefix
            refine hbroken (x :: bytes) c ⟨hin, ?_⟩ ((List.prefix_cons_inj x).mpr hprefix)
            rwa [if_neg hmore]
          · intro b hb more c hc
            refine hlongest b hb more c ⟨hin, ?_⟩
            rwa [if_neg hmore]

theorem Garbled.items (h : Garbled part rest) : items (part ++ rest) = none :: items rest := by
  obtain ⟨b, part, rfl⟩ := List.exists_cons_of_ne_nil h.ne_nil
  have hbegins : part = [] ∨ ∃ more c, utf8EncodeChar c = b :: (part ++ more) := by
    obtain hone | ⟨c, more, hc⟩ := h.begins
    · exact .inl (List.length_eq_zero_iff.mp (Nat.succ.inj hone))
    · exact .inr ⟨more, c, hc.symm⟩
  rw [Utf8.items, List.cons_append, itemsFrom]
  rcases hlead : lead b.toNat with (_ | d) | next
  · obtain rfl | ⟨more, c, hc⟩ := hbegins
    · rfl
    · exact absurd hc (encodeChar_of_lead_none hlead)
  · have hd : utf8EncodeChar d = [b] := (encodeChar_of_lead hlead).mpr ⟨rfl, rfl⟩
    exact absurd (hd ▸ List.prefix_append [b] _) (h.broken d)
  · simp only [encodeChar_of_lead_state hlead] at hbegins
    refine (alive_of_lead hlead).items_garbled hbegins ?_ ?_
    · intro bytes c hc hprefix
      apply h.broken c
      rw [(encodeChar_of_lead_state hlead).mpr hc]
      exact (List.prefix_cons_inj b).mpr hprefix
    · intro x hx more c hc
      apply h.longest x hx c
      rw [(encodeChar_of_lead_state hlead).mpr hc]
      exact ⟨more, by simp⟩

theorem Decodes.items {found : List (Option Char)} (h : Decodes bytes found) :
    items bytes = found := by
  induction h with
  | nil => rfl
  | char c _ ih =>
    rw [← ih]
    have hc : Pending.ground.Completes (utf8EncodeChar c) c := by
      rw [Pending.Completes]
    exact hc.items
  | garbled hpart _ ih => rw [hpart.items, ih]

theorem exists_garbled (hne : part ≠ []) (hbegins : part.length = 1 ∨ ∃ c, part <+: utf8EncodeChar c)
    (hbroken : ∀ c, ¬ utf8EncodeChar c <+: part ++ rest) :
    ∃ more rest', rest = more ++ rest' ∧ Garbled (part ++ more) rest' := by
  induction rest generalizing part with
  | nil =>
    refine ⟨[], [], rfl, ?_⟩
    rw [List.append_nil]
    exact ⟨hne, hbegins, hbroken, fun b hb => by cases hb⟩
  | cons b rest ih =>
    by_cases hmore : ∃ c, part ++ [b] <+: utf8EncodeChar c
    · rw [List.append_cons] at hbroken
      obtain ⟨more, rest', rfl, h⟩ := ih (by simp) (.inr hmore) hbroken
      refine ⟨b :: more, rest', rfl, ?_⟩
      rwa [List.append_cons]
    · refine ⟨[], b :: rest, rfl, ?_⟩
      rw [List.append_nil]
      refine ⟨hne, hbegins, hbroken, fun x hx c hc => hmore ⟨c, ?_⟩⟩
      rwa [Option.some.inj hx]

theorem exists_decodes (bytes : List UInt8) : ∃ found, Decodes bytes found := by
  induction hn : bytes.length using Nat.strong_induction_on generalizing bytes with
  | _ n ih =>
    cases bytes with
    | nil => exact ⟨[], .nil⟩
    | cons b bytes =>
      by_cases hchar : ∃ c, utf8EncodeChar c <+: b :: bytes
      · obtain ⟨c, rest, hrest⟩ := hchar
        have hpos := List.length_pos_iff.mpr (encodeChar_ne_nil c)
        have hlength := congrArg List.length hrest
        rw [List.length_append] at hlength
        obtain ⟨found, hfound⟩ := ih rest.length (by omega) rest rfl
        exact ⟨some c :: found, hrest ▸ .char c hfound⟩
      · obtain ⟨more, rest, rfl, h⟩ := exists_garbled (List.cons_ne_nil b []) (.inl rfl)
          (fun c hc => hchar ⟨c, hc⟩)
        rw [List.length_cons, List.length_append] at hn
        obtain ⟨found, hfound⟩ := ih rest.length (by omega) rest rfl
        exact ⟨none :: found, .garbled h hfound⟩

theorem decodes_iff {found : List (Option Char)} : Decodes bytes found ↔ items bytes = found := by
  constructor
  · exact Decodes.items
  · rintro rfl
    obtain ⟨found, h⟩ := exists_decodes bytes
    exact h.items ▸ h

theorem decodes_map_some {text : List Char} : Decodes bytes (text.map some) ↔ bytes = encode text := by
  constructor
  · intro h
    generalize hfound : text.map some = found at h
    induction h generalizing text with
    | nil => rw [List.map_eq_nil_iff.mp hfound]; rfl
    | char c _ ih =>
      obtain ⟨d, text, rfl, hd, htext⟩ := List.map_eq_cons_iff.mp hfound
      rw [ih htext, ← Option.some.inj hd]
      rfl
    | garbled =>
      obtain ⟨d, text, rfl, hd, -⟩ := List.map_eq_cons_iff.mp hfound
      cases hd
  · rintro rfl
    induction text with
    | nil => exact .nil
    | cons c text ih => exact .char c ih

theorem mapM_id_eq_some_iff {found : List (Option Char)} {text : List Char} :
    found.mapM id = some text ↔ found = text.map some := by
  induction found generalizing text with
  | nil =>
    rw [List.nil_eq, List.map_eq_nil_iff, List.mapM_nil]
    exact Option.some_inj.trans eq_comm
  | cons item found ih =>
    simp only [List.mapM_cons, Option.bind_eq_bind, Option.bind_eq_some_iff, ih]
    constructor
    · rintro ⟨c, rfl, text, rfl, htext⟩
      exact Option.some.inj htext ▸ rfl
    · intro h
      obtain ⟨c, text, rfl, hc, htext⟩ := List.map_eq_cons_iff.mp h.symm
      exact ⟨c, hc.symm, text, htext.symm, rfl⟩

theorem decode?_eq_some_iff {text : List Char} : decode? bytes = some text ↔ bytes = encode text := by
  rw [← decodes_map_some, decodes_iff, decode?, mapM_id_eq_some_iff]

theorem decodeLossy_encode (text : List Char) : decodeLossy (encode text) = text := by
  rw [decodeLossy, decodes_iff.mp (decodes_map_some.mpr rfl), List.map_map]
  exact List.map_id text

end PortLease.Text.Utf8
