import PortLease.Proofs.Yaml.RoundTrip
import PortLease.Proofs.Yaml.Scalar

namespace PortLease.Yaml

namespace Outline

mutual

def tokens : Outline → List Token
  | .word w => [.scalar w.toList .plain]
  | .text cs => [.scalar cs (Writer.style cs)]
  | .mapping members => .blockMapping :: tokensOfMembers members ++ [.blockEnd]

def tokensOfMembers : List (String × Outline) → List Token
  | [] => []
  | (key, value) :: rest => [.key, .scalar key.toList .plain, .value] ++ value.tokens ++ tokensOfMembers rest

end

mutual

def node : Outline → Node
  | .word w => .scalar {} w.toList .plain
  | .text cs => .scalar {} cs (Writer.style cs)
  | .mapping members => .mapping {} (nodesOfMembers members)

def nodesOfMembers : List (String × Outline) → List (Node × Node)
  | [] => []
  | (key, value) :: rest => (.scalar {} key.toList .plain, value.node) :: nodesOfMembers rest

end

end Outline

namespace Lexer

open Writer (pad)

variable {text : List Char} {outer indents : List Nat} {tokens : List Token} {p : Place} {fuel column n : Nat}

theorem tokens?_space (hcolumn : column < p.column) (h : Begins text) :
    tokens? (fuel + 1) (between (column :: outer) tokens ⟨' ' :: text, p⟩ false) =
      resume? fuel (between (column :: outer) tokens ⟨text, p.after ' '⟩ false) := by
  have hinside : ∀ i ∈ (column :: outer).head?, i < ((p.over [' ']).column + 1) := fun i hi => by
    rw [← Option.some.inj hi]
    exact Nat.lt_succ_of_lt (Nat.lt_succ_of_lt hcolumn)
  refine (tokens?_gap [' '] (by simp) h).trans ?_
  rw [closeBlocks_inside hinside]
  rfl

theorem begins_letters {key rest : List Char} (hne : key ≠ []) (hletters : ∀ c ∈ key, c.isAlphanum = true) :
    Begins (key ++ rest) := by
  obtain ⟨c, key, rfl⟩ := List.exists_cons_of_ne_nil hne
  intro d hd
  obtain rfl : c = d := Option.some.inj hd
  have hc := hletters c List.mem_cons_self
  exact ⟨(letter_not_spacing hc).2, Text.ne_of_test hc rfl, Text.ne_of_test hc rfl⟩

theorem renderMembers_fresh {members : List (String × Outline)} (hne : members ≠ []) :
    Outline.renderMembers column true members = pad column ++ Outline.renderMembers column false members := by
  obtain ⟨⟨key, value⟩, rest, rfl⟩ := List.exists_cons_of_ne_nil hne
  simp [Outline.renderMembers]

theorem begins_members {members : List (String × Outline)} (hne : members ≠ [])
    (hmembers : Outline.ProperMembers members) : Begins (Outline.renderMembers column false members ++ text) := by
  obtain ⟨⟨key, value⟩, rest, rfl⟩ := List.exists_cons_of_ne_nil hne
  rw [Outline.ProperMembers] at hmembers
  simp only [Outline.renderMembers, Bool.false_eq_true, if_false, List.nil_append, List.append_assoc]
  exact begins_letters hmembers.1.ne hmembers.1.letters

def ScansValue (o : Outline) : Prop :=
  ∀ ⦃column n : Nat⦄ ⦃p : Place⦄ ⦃text : List Char⦄ (outer : List Nat) (tokens : List Token),
    column < p.column → n ≤ column → Begins text →
    (p.over (o.render column ++ pad n)).column = n ∧ ∃ k ≤ (o.render column).length, ∀ fuel,
      tokens? (fuel + k + 1) (between (column :: outer) tokens ⟨o.render column ++ (pad n ++ text), p⟩ false) =
        resume? fuel ((between (column :: outer) (tokens ++ o.tokens)
          ⟨text, p.over (o.render column ++ pad n)⟩ true).closeBlocks (n + 1))

def ScansMembers (members : List (String × Outline)) : Prop :=
  ∀ ⦃column n : Nat⦄ ⦃p : Place⦄ ⦃text : List Char⦄ ⦃indents : List Nat⦄ (outer : List Nat) (tokens : List Token),
    p.column = column → (indents = column :: outer ∨ indents = outer ∧ ∀ i ∈ outer.head?, i < column) →
    n ≤ column → Begins text →
    (p.over (Outline.renderMembers column false members ++ pad n)).column = n ∧
    ∃ k ≤ (Outline.renderMembers column false members).length, ∀ fuel,
      resume? (fuel + k) (between indents tokens
          ⟨Outline.renderMembers column false members ++ (pad n ++ text), p⟩ true) =
        resume? fuel ((between (column :: outer)
          (tokens ++ ((if indents.head? = some column then [] else [.blockMapping]) ++
            Outline.tokensOfMembers members))
          ⟨text, p.over (Outline.renderMembers column false members ++ pad n)⟩ true).closeBlocks (n + 1))

theorem scansValue_word {word : String} (hword : Outline.IsWord word) : ScansValue (.word word) := by
  intro column n p text outer tokens hcolumn hn h
  have hrender : (Outline.word word).render column ++ (pad n ++ text) =
      ' ' :: (word.toList ++ ('\n' :: pad n ++ text)) := by simp [Outline.render]
  have hover : p.over ((Outline.word word).render column ++ pad n) =
      (p.after ' ').over (word.toList ++ '\n' :: pad n) := by simp [Outline.render]
  refine ⟨?_, 1, by simp [Outline.render], fun fuel => ?_⟩
  · rw [hover, Place.over_append, column_over_nextLine]
  rw [hrender, hover, tokens?_space hcolumn (begins_letters hword.ne hword.letters),
    resume?_word hword.ne hword.letters (Nat.lt_succ_of_lt hcolumn) hn h, Outline.tokens]

theorem scansValue_text (cs : List Char) : ScansValue (.text cs) := by
  intro column n p text outer tokens hcolumn hn h
  refine ⟨column_over_scalar _ cs, 1, by simp [Outline.render], fun fuel => ?_⟩
  rw [Outline.render, List.cons_append, tokens?_space hcolumn (Writer.begins_scalar _ cs),
    resume?_scalar (Nat.lt_succ_of_lt hcolumn) hn h]
  rfl

theorem scansValue_mapping {members : List (String × Outline)} (hne : members ≠ [])
    (hmembers : Outline.ProperMembers members) (hscans : ScansMembers members) : ScansValue (.mapping members) := by
  intro column n p text outer tokens hcolumn hn h
  have hgap : ∀ c ∈ '\n' :: pad (column + 2), c = ' ' ∨ isBreak c = true :=
    List.forall_mem_cons.mpr ⟨.inr rfl, fun c hc => .inl (List.eq_of_mem_replicate hc)⟩
  have hstart : (p.over ('\n' :: pad (column + 2))).column = column + 2 := column_over_nextLine (column + 2)
  have hhead (i : Nat) (hi : i ∈ (column :: outer).head?) : i < column + 2 := by
    rw [← Option.some.inj hi]
    exact Nat.lt_add_of_pos_right Nat.two_pos
  have hrender : (Outline.mapping members).render column =
      '\n' :: pad (column + 2) ++ Outline.renderMembers (column + 2) false members := by
    rw [Outline.render, renderMembers_fresh hne, List.cons_append]
  -- the block is two columns deeper, and the next token closes it
  obtain ⟨hend, k, hk, hread⟩ :=
    hscans (column :: outer) tokens hstart (.inr ⟨rfl, hhead⟩) (Nat.le_add_right_of_le hn) h
  refine ⟨?_, k, ?_, fun fuel => ?_⟩
  · rw [hrender, List.append_assoc, Place.over_append, hend]
  · rw [hrender, List.length_append]
    omega
  · have hinside : (between (column :: outer) tokens
        ⟨Outline.renderMembers (column + 2) false members ++ (pad n ++ text), p.over ('\n' :: pad (column + 2))⟩
          true).closeBlocks (column + 2 + 1) = _ :=
      closeBlocks_inside (fun i hi => Nat.lt_succ_of_lt (hhead i hi)) _
    have hnot : ¬ (column :: outer).head? = some (column + 2) := by simp
    rw [hrender, List.append_assoc, tokens?_nextLine _ hgap rfl hstart (begins_members hne hmembers), hinside,
      hread, closeBlocks_deeper (Nat.succ_le_of_lt (Nat.lt_add_right 1 (Nat.lt_succ_of_le hn))), if_neg hnot]
    simp only [Outline.tokens, List.append_assoc, List.nil_append, List.cons_append,
      Place.over_append, Place.over_cons]

theorem column_lt_key {key : String} (hkey : Outline.IsKey key) : p.column < (p.over (key.toList ++ [':'])).column := by
  have hline : ∀ c ∈ key.toList ++ [':'], isBreak c = false := by
    simp only [List.forall_mem_append, List.forall_mem_singleton]
    exact ⟨fun c hc => (letter_not_spacing (hkey.letters c hc)).1, rfl⟩
  rw [Place.column_over_line hline, List.length_append]
  exact Nat.lt_add_of_pos_right (Nat.succ_pos _)

theorem scansMember {key : String} {value : Outline} (hkey : Outline.IsKey key) (hvalue : ScansValue value)
    (outer : List Nat) (tokens : List Token) (hp : p.column = column)
    (hindents : indents = column :: outer ∨ indents = outer ∧ ∀ i ∈ outer.head?, i < column) (hn : n ≤ column)
    (h : Begins text) :
    (p.over (key.toList ++ ':' :: (value.render column ++ pad n))).column = n ∧
    ∃ k ≤ key.toList.length + 1 + (value.render column).length, ∀ fuel,
      resume? (fuel + k) (between indents tokens ⟨key.toList ++ ':' :: (value.render column ++ (pad n ++ text)), p⟩
          true) =
        resume? fuel ((between (column :: outer) (tokens ++ keyTokens indents column key.toList ++ value.tokens)
          ⟨text, p.over (key.toList ++ ':' :: (value.render column ++ pad n))⟩ true).closeBlocks (n + 1)) := by
  subst hp
  have hhead : ∀ i ∈ indents.head?, i ≤ p.column := by
    obtain rfl | ⟨rfl, houter⟩ := hindents
    · exact fun i hi => (Option.some.inj hi).ge
    · exact fun i hi => (houter i hi).le
  have hdeeper : deeper indents p.column = p.column :: outer := by
    rw [deeper]
    obtain rfl | ⟨rfl, houter⟩ := hindents
    · simp
    · exact if_neg fun hi => Nat.lt_irrefl p.column (houter p.column hi)
  have hends : endsWord (value.render p.column ++ (pad n ++ text)) = true := by
    cases value <;> rfl
  obtain ⟨hend, k, hk, hread⟩ :=
    hvalue outer (tokens ++ keyTokens indents p.column key.toList) (column_lt_key hkey) hn h
  have hover : p.over (key.toList ++ ':' :: (value.render p.column ++ pad n)) =
      (p.over (key.toList ++ [':'])).over (value.render p.column ++ pad n) := by simp [Place.over_append]
  have hlength := List.length_pos_iff.mpr hkey.ne
  -- the key and its colon take one step each
  refine ⟨by rw [hover, hend], k + 2, by omega, fun fuel => ?_⟩
  have hstep : resume? (fuel + k + 1 + 1) (between indents tokens
      ⟨key.toList ++ ':' :: (value.render p.column ++ (pad n ++ text)), p⟩ true) = _ :=
    resume?_key hkey.ne hkey.letters hkey.short hends hhead
  rw [hdeeper, hread] at hstep
  rw [hover]
  exact hstep

theorem scansMembers_cons {key : String} {value : Outline} {rest : List (String × Outline)} (hkey : Outline.IsKey key)
    (hvalue : ScansValue value) (hrest : rest ≠ [] → Outline.ProperMembers rest ∧ ScansMembers rest) :
    ScansMembers ((key, value) :: rest) := by
  intro column n p text indents outer tokens hp hindents hn h
  have hrender (more : List Char) : Outline.renderMembers column false ((key, value) :: rest) ++ more =
      key.toList ++ ':' :: (value.render column ++ (Outline.renderMembers column true rest ++ more)) := by
    simp [Outline.renderMembers]
  have htokens : keyTokens indents column key.toList ++ value.tokens ++ Outline.tokensOfMembers rest =
      (if indents.head? = some column then [] else [.blockMapping]) ++
        Outline.tokensOfMembers ((key, value) :: rest) := by
    simp [keyTokens, Outline.tokensOfMembers]
  have hlength : (Outline.renderMembers column false ((key, value) :: rest)).length =
      key.toList.length + 1 + (value.render column).length + (Outline.renderMembers column true rest).length := by
    simp [Outline.renderMembers]
    omega
  rw [← htokens, hlength]
  simp only [hrender]
  -- behind the last member comes what comes behind the mapping, behind any other one the next key
  by_cases hne : rest = []
  · subst hne
    simpa [Outline.renderMembers, Outline.tokensOfMembers] using
      scansMember hkey hvalue outer tokens hp hindents hn h
  · obtain ⟨hmembers, hscans⟩ := hrest hne
    have hnext : Begins (Outline.renderMembers column false rest ++ (pad n ++ text)) := begins_members hne hmembers
    obtain ⟨hstart, k, hk, hread⟩ := scansMember hkey hvalue outer tokens hp hindents le_rfl hnext
    obtain ⟨hend, k', hk', hread'⟩ :=
      hscans outer (tokens ++ keyTokens indents column key.toList ++ value.tokens) hstart (.inl rfl) hn h
    have hinside : ∀ i ∈ (column :: outer).head?, i < column + 1 := fun i hi =>
      Nat.lt_succ_of_le (Option.some.inj hi).ge
    have hover : p.over (key.toList ++ ':' :: (value.render column ++
          (pad column ++ Outline.renderMembers column false rest ++ pad n))) =
        (p.over (key.toList ++ ':' :: (value.render column ++ pad column))).over
          (Outline.renderMembers column false rest ++ pad n) := by simp [Place.over_append]
    rw [renderMembers_fresh hne, List.length_append]
    refine ⟨by rw [hover, hend], k' + k, by omega, fun fuel => ?_⟩
    rw [← Nat.add_assoc, List.append_assoc (pad column), hread, closeBlocks_inside hinside, hread']
    simp [Place.over_append]

theorem resume?_end {allowed : Bool} :
    resume? fuel (between [column] tokens ⟨[], p⟩ allowed) = some (tokens ++ [Token.blockEnd]).toArray := by
  simp [resume?, between, closeBlocks, flow, dropKey?]

mutual

theorem scansValue (o : Outline) (ho : o.Proper) : ScansValue o := by
  match o with
  | .word word =>
    rw [Outline.Proper] at ho
    exact scansValue_word ho
  | .text cs => exact scansValue_text cs
  | .mapping members =>
    rw [Outline.Proper] at ho
    exact scansValue_mapping ho.1 ho.2 (scansMembers members ho.1 ho.2)

theorem scansMembers (members : List (String × Outline)) (hne : members ≠ [])
    (hmembers : Outline.ProperMembers members) : ScansMembers members := by
  match members with
  | [] => exact absurd rfl hne
  | (key, value) :: rest =>
    rw [Outline.ProperMembers] at hmembers
    obtain ⟨hkey, hvalue, hrest⟩ := hmembers
    exact scansMembers_cons hkey (scansValue value hvalue) fun hne => ⟨hrest, scansMembers rest hne hrest⟩

end

end Lexer

open Lexer in
theorem Token.ofText?_begins {text : List Char} (h : Begins text) :
    Token.ofText? text = (resume? text.length (between [] [] ⟨text, {}⟩ true)).map Array.toList := by
  have hstart : Lexer.ofText text = between [] [] ⟨[] ++ text, {}⟩ true := rfl
  rw [ofText?, hstart, tokens?_gap [] (by simp) h, closeBlocks_inside (by simp), Place.over_nil, Bool.true_or]

open Lexer in
theorem Token.ofText?_mappingText {members : List (String × Outline)} (hne : members ≠ [])
    (hmembers : Outline.ProperMembers members) :
    Token.ofText? (Outline.mappingText members) = some (Outline.mapping members).tokens := by
  have htext : Outline.mappingText members = Outline.renderMembers 0 false members := by
    rw [Outline.mappingText, renderMembers_fresh hne]
    rfl
  have hbegins : Begins (Outline.renderMembers 0 false members) := by
    have hbegins : Begins (Outline.renderMembers 0 false members ++ []) := begins_members hne hmembers
    rwa [List.append_nil] at hbegins
  have hscans : ScansMembers members := scansMembers members hne hmembers
  obtain ⟨-, k, hk, hread⟩ := @hscans 0 0 {} [] [] [] [] rfl (.inr ⟨rfl, by simp⟩) le_rfl (by simp [Begins])
  obtain ⟨fuel, hfuel⟩ := Nat.exists_eq_add_of_le' hk
  have hscan : resume? (fuel + k) (between [] [] ⟨Outline.renderMembers 0 false members, {}⟩ true) =
      some (Outline.mapping members).tokens.toArray := by
    have hpad : Writer.pad 0 = [] := rfl
    have hopen : ∀ i ∈ [0].head?, i < 0 + 1 := by simp
    have hread := hread fuel
    rw [hpad, List.append_nil, List.append_nil, closeBlocks_inside hopen, resume?_end] at hread
    exact hread
  rw [htext, ofText?_begins hbegins, hfuel, hscan]
  rfl

open Lexer in
theorem Token.ofText?_member {key word : String} (hkey : Outline.IsKey key) (hword : Outline.IsWord word) :
    Token.ofText? (key.toList ++ ':' :: ' ' :: word.toList) = some (Outline.mapping [(key, .word word)]).tokens := by
  obtain ⟨fuel, hfuel⟩ : ∃ n, (key.toList ++ ':' :: ' ' :: word.toList).length = n + 3 := by
    have := List.length_pos_iff.mpr hkey.ne
    exact ⟨key.toList.length + word.toList.length - 1, by simp; omega⟩
  have hcolumn : 0 < (Place.over {} (key.toList ++ [':'])).column := column_lt_key (p := {}) hkey
  have hdeeper : deeper [] (Place.mk 0 0 0).column = [0] := rfl
  obtain ⟨c, cs, hcs⟩ := List.exists_cons_of_ne_nil hword.ne
  have hletters := hword.letters
  rw [hcs] at hletters
  have hbegins : Begins (c :: cs) := by
    have hbegins : Begins (c :: cs ++ []) := begins_letters (List.cons_ne_nil c cs) hletters
    rwa [List.append_nil] at hbegins
  generalize hp : (Place.over {} (key.toList ++ [':'])).after ' ' = p
  generalize hkeys : keyTokens [] (Place.mk 0 0 0).column key.toList = keys
  have hplain : resume? (fuel + 1) (between [0] keys ⟨c :: cs ++ ([] ++ []), p⟩ false) = _ :=
    resume?_plain (Plain.body_of_letters hletters) (beginsPlain_letter (hletters c List.mem_cons_self))
      (hp ▸ Nat.succ_pos _) (by simp) (by simp) (by simp) rfl fun _ => .inl rfl
  have hend : tokens? (fuel + 1) (between [0] (keys ++ [.scalar (c :: cs) .plain])
      ⟨[] ++ [], p.over (c :: cs)⟩ false) = _ := tokens?_gap [] (by simp) (by simp [Begins])
  rw [closeBlocks_inside (by simp), resume?_end] at hend
  simp only [List.append_nil, List.any_nil] at hplain hend
  rw [ofText?_begins (begins_letters hkey.ne hkey.letters), hfuel,
    resume?_key hkey.ne hkey.letters hkey.short rfl (by simp), hdeeper, hcs, tokens?_space hcolumn hbegins,
    List.nil_append, hp, hkeys, hplain, hend, ← hkeys]
  simp [Outline.tokens, Outline.tokensOfMembers, keyTokens, hcs]

end PortLease.Yaml
