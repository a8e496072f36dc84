import PortLease.Proofs.Yaml.Scalar.Block
import PortLease.Yaml.Token.Lexer

namespace PortLease.Yaml

variable {cs gap key text rest : List Char} {indents outer : List Nat} {tokens : List Token} {p : Place} {c : Char}
  {fuel column indent n : Nat} {allowed : Bool}

def Begins (text : List Char) : Prop := ∀ c ∈ text.head?, isSpacing c = false ∧ c ≠ '#' ∧ c ≠ '\uFEFF'

namespace Lexer

def between (indents : List Nat) (tokens : List Token) (k : Cursor) (allowed : Bool) : Lexer :=
  { cursor := k, tokens := tokens.toArray, indents, keyAllowed := allowed }

def resume? (fuel : Nat) (l : Lexer) : Option (Array Token) :=
  match l.cursor.rest with
  | [] => (l.closeBlocks 0).dropKey?.map Lexer.tokens
  | c :: rest => (l.token? c rest).bind (tokens? fuel)

theorem tokens?_succ (l : Lexer) : tokens? (fuel + 1) l = l.approach?.bind (resume? fuel) := by
  cases h : l.approach? with
  | none => simp [tokens?, h]
  | some l =>
    simp only [tokens?, h, resume?, Option.bind_eq_bind, Option.bind_some]
    cases l.cursor.rest with
    | nil => cases (l.closeBlocks 0).dropKey? <;> rfl
    | cons c rest => rfl

theorem resume?_cons {l : Lexer} (h : l.cursor.rest = c :: rest) :
    resume? fuel l = (l.token? c rest).bind (tokens? fuel) := by
  rw [resume?, h]

theorem skipSpace_begins (h : Begins text) :
    skipSpace false text p allowed false = (⟨text, p⟩, allowed) := by
  cases text with
  | nil => rfl
  | cons c text =>
    obtain ⟨hspacing, hhash, hmark⟩ := h c rfl
    simp only [isSpacing, isBlank, Bool.or_eq_false_iff, decide_eq_false_iff_not] at hspacing
    simp [skipSpace, hspacing, hhash, hmark]

theorem skipSpace_gap (hgap : ∀ c ∈ gap, c = ' ' ∨ isBreak c = true) (h : Begins text) :
    skipSpace false (gap ++ text) p allowed false = (⟨text, p.over gap⟩, allowed || gap.any isBreak) := by
  induction gap generalizing p allowed with
  | nil => rw [List.nil_append, skipSpace_begins h, List.any_nil, Bool.or_false, Place.over_nil]
  | cons c gap ih =>
    obtain ⟨hc, hgap⟩ := List.forall_mem_cons.mp hgap
    rw [List.cons_append, skipSpace]
    cases hbreak : isBreak c with
    | true =>
      rw [if_pos rfl, ih hgap]
      simp [hbreak]
    | false =>
      have hspace : c = ' ' := hc.resolve_right (by simp [hbreak])
      rw [if_neg Bool.false_ne_true, if_pos (by simp [hspace]), ih hgap]
      simp [hbreak]

theorem approach?_gap (hgap : ∀ c ∈ gap, c = ' ' ∨ isBreak c = true) (h : Begins text) :
    (between indents tokens ⟨gap ++ text, p⟩ allowed).approach? =
      some ((between indents tokens ⟨text, p.over gap⟩ (allowed || gap.any isBreak)).closeBlocks
        ((p.over gap).column + 1)) := by
  have hskip : skipSpace false (gap ++ text) p allowed false = (⟨text, p.over gap⟩, allowed || gap.any isBreak) :=
    skipSpace_gap hgap h
  simp only [approach?, between, flow, List.isEmpty_nil, Bool.not_true, hskip, refreshKeys?, refresh?,
    List.mapM_nil, Option.bind_eq_bind, Option.pure_def, Option.bind_some, Lexer.column]

theorem foldl_blockEnd (closed : List Nat) : closed.foldl (fun ts _ => ts.push Token.blockEnd) tokens.toArray =
    (tokens ++ List.replicate closed.length Token.blockEnd).toArray := by
  induction closed generalizing tokens with
  | nil => simp
  | cons i closed ih =>
    rw [List.foldl_cons, List.push_toArray, ih, List.length_cons, List.replicate_succ, List.append_assoc]
    rfl

theorem closeBlocks_between {least : Nat} (k : Cursor) :
    (between indents tokens k allowed).closeBlocks least =
      between (indents.dropWhile (least ≤ ·))
        (tokens ++ List.replicate (indents.takeWhile (least ≤ ·)).length .blockEnd) k allowed := by
  rw [closeBlocks, if_neg (by simp [flow, between])]
  simp only [between, foldl_blockEnd]

theorem closeBlocks_eq_self {l : Lexer} {least : Nat} (h : ∀ i ∈ l.indents.head?, i < least) :
    l.closeBlocks least = l := by
  obtain ⟨_, _, indents⟩ := l
  rw [closeBlocks]
  split
  · rfl
  · cases indents with
    | nil => rfl
    | cons i indents =>
      have hi : ¬ least ≤ i := Nat.not_le.mpr (h i rfl)
      simp [hi]

theorem closeBlocks_inside (h : ∀ i ∈ indents.head?, i < column) (k : Cursor) :
    (between indents tokens k allowed).closeBlocks column = between indents tokens k allowed :=
  closeBlocks_eq_self h

theorem closeBlocks_deeper {least i : Nat} (h : least ≤ i) (k : Cursor) :
    (between (i :: indents) tokens k allowed).closeBlocks least =
      (between indents (tokens ++ [.blockEnd]) k allowed).closeBlocks least := by
  simp [closeBlocks_between, h, List.replicate_succ]

theorem beginsPlain_letter (h : c.isAlphanum = true) : beginsPlain false c rest = true := by
  have hindicator : isIndicator c = false :=
    Text.letter_induction (P := fun c => isIndicator c = false) (by decide) h
  rw [beginsPlain, hindicator, (letter_not_spacing h).2]
  rfl

theorem token?_plain {l : Lexer} (hflow : l.flow = false) (hmark : l.cursor.atDocumentMark = false)
    (h : beginsPlain false c rest = true) : l.token? c rest = l.plain? := by
  have hplain := h
  simp only [beginsPlain, Bool.or_eq_true, Bool.not_eq_true', Bool.or_eq_false_iff, Bool.and_eq_true,
    decide_eq_true_eq, Bool.not_false, true_and] at h
  obtain (⟨-, hindicator⟩ | ⟨rfl, hend⟩) | ⟨rfl | rfl, hend⟩ := h
  · have hne {d : Char} (hd : isIndicator d = true) : c ≠ d := (Text.ne_of_test hd hindicator).symm
    simp [token?, hmark, hflow, hplain, hne (d := '%') rfl, hne (d := '[') rfl, hne (d := '\x7b') rfl,
      hne (d := ']') rfl, hne (d := '\x7d') rfl, hne (d := ',') rfl, hne (d := '-') rfl, hne (d := '?') rfl,
      hne (d := ':') rfl, hne (d := '*') rfl, hne (d := '&') rfl, hne (d := '!') rfl, hne (d := '|') rfl,
      hne (d := '>') rfl, hne (d := '\x27') rfl, hne (d := '"') rfl]
  all_goals simp [token?, hmark, hflow, hplain, hend]

def atColon (indents : List Nat) (tokens : List Token) (key : List Char) (p : Place) (rest : List Char) : Lexer :=
  { between indents (tokens ++ [.scalar key .plain]) ⟨':' :: rest, p.over key⟩ false with
    key := some ⟨indents.head? = some p.column, p, tokens.length⟩ }

theorem plain?_key (hne : key ≠ []) (hletters : ∀ c ∈ key, c.isAlphanum = true) (hrest : endsWord rest = true)
    (hmark : Cursor.atDocumentMark ⟨key ++ ':' :: rest, p⟩ = false) :
    (between indents tokens ⟨key ++ ':' :: rest, p⟩ true).plain? = some (atColon indents tokens key p rest) := by
  have hbody := Plain.body_of_letters hletters
  have hspacing : ∀ c ∈ key, isSpacing c = false := fun c hc => (letter_not_spacing (hletters c hc)).2
  have hlast : key.getLast? ≠ some ':' := fun hlast => (hbody.last ':' hlast).2 rfl
  have hhash : key.head? ≠ some '#' := fun hhead => (hbody.first '#' hhead).2 rfl
  have hstop : Plain.word? false ([] ++ ':' :: rest) = some [] := by
    simp [Plain.word?, isSpacing, isBlank, isBreak, hrest]
  have hread (least : Nat) : Plain.read? false least ⟨key ++ ([] ++ ':' :: rest), p⟩ =
      some (key, false, ⟨':' :: rest, p.over (key ++ [])⟩) :=
    Plain.read?_word hne hspacing hlast hmark hhash hstop (by simp) (by simp)
      (by rintro c hc; rw [← Option.some.inj hc]; rfl) (.inl rfl)
  rw [List.nil_append, List.append_nil] at hread
  simp [plain?, saveKey?, between, dropKey?, flow, atColon, advance, put, Lexer.column, hread]
  rfl

theorem insertIdxIfInBounds_length (more : List Token) (token : Token) :
    (tokens ++ more).toArray.insertIdxIfInBounds tokens.length token = (tokens ++ token :: more).toArray := by
  rw [List.insertIdxIfInBounds_toArray]
  congr 1
  induction tokens with
  | nil => rfl
  | cons t tokens ih => exact congrArg (t :: ·) ih

def deeper (indents : List Nat) (column : Nat) : List Nat :=
  if indents.head? = some column then indents else column :: indents

def keyTokens (indents : List Nat) (column : Nat) (key : List Char) : List Token :=
  (if indents.head? = some column then [] else [.blockMapping]) ++ [.key, .scalar key .plain, .value]

theorem value?_atColon (hindents : ∀ i ∈ indents.head?, i ≤ p.column) :
    (atColon indents tokens key p rest).value? =
      some (between (deeper indents p.column) (tokens ++ keyTokens indents p.column key)
        ⟨rest, p.over (key ++ [':'])⟩ false) := by
  have hopens : (atColon indents tokens key p rest).opensBlock p.column = !decide (indents.head? = some p.column) := by
    cases indents with
    | nil => rfl
    | cons i indents =>
      have hi := hindents i rfl
      rw [opensBlock, Bool.eq_iff_iff]
      simp [atColon, between, flow, Lexer.least]
      omega
  have hinsert (new : List Token) : (atColon indents tokens key p rest).insert tokens.length new =
      { atColon indents tokens key p rest with tokens := (tokens ++ (new ++ [Token.scalar key .plain])).toArray } := by
    induction new with
    | nil => rfl
    | cons t new ih =>
      have htokens := congrArg Lexer.tokens ih
      simp only [insert] at htokens ⊢
      rw [List.foldr_cons, htokens, insertIdxIfInBounds_length, List.cons_append]
  change some (Lexer.advance { (atColon indents tokens key p rest).insert tokens.length
    ((if (atColon indents tokens key p rest).opensBlock p.column then [Token.blockMapping] else []) ++ [.key]) with
      key := none
      indents := if (atColon indents tokens key p rest).opensBlock p.column then p.column :: indents else indents }
    .value ⟨rest, (p.over key).after ':'⟩ false) = _
  rw [hopens, advance, put, hinsert, Place.over_append]
  by_cases h : indents.head? = some p.column
  · simp [h, between, atColon, deeper, keyTokens]
  · simp [h, between, atColon, deeper, keyTokens]

theorem approach?_atColon (hletters : ∀ c ∈ key, c.isAlphanum = true) (hlength : key.length ≤ 1024)
    (hindents : ∀ i ∈ indents.head?, i ≤ p.column) :
    (atColon indents tokens key p rest).approach? = some (atColon indents tokens key p rest) := by
  have hover : p.over key = ⟨p.index + key.length, p.line, p.column + key.length⟩ :=
    Place.over_line fun c hc => (letter_not_spacing (hletters c hc)).1
  have hskip : skipSpace false (':' :: rest) (p.over key) false false = (⟨':' :: rest, p.over key⟩, false) :=
    skipSpace_begins fun c hc => by rw [← Option.some.inj hc]; decide
  -- the key is on one line and short, so it is possible still
  have hpast (required : Bool) (position : Nat) :
      PossibleKey.isPast ⟨required, p, position⟩ (p.over key) = false := by
    simp [PossibleKey.isPast, hover, hlength]
  have hclose : (atColon indents tokens key p rest).closeBlocks ((p.over key).column + 1) =
      atColon indents tokens key p rest := by
    refine closeBlocks_eq_self fun i hi => ?_
    have hleast := hindents i hi
    rw [hover]
    exact Nat.lt_succ_of_le (Nat.le_add_right_of_le hleast)
  rw [approach?]
  simp only [atColon, between, flow, List.isEmpty_nil, Bool.not_true, hskip]
  simp only [refreshKeys?, refresh?, hpast, Bool.false_eq_true, if_false, Option.bind_eq_bind, Option.bind_some,
    List.mapM_nil, Option.pure_def]
  exact congrArg some hclose

theorem token?_atColon (hrest : endsWord rest = true) :
    (atColon indents tokens key p rest).token? ':' rest = (atColon indents tokens key p rest).value? := by
  have hmark : (atColon indents tokens key p rest).cursor.atDocumentMark = false :=
    Cursor.not_atDocumentMark_of_head (by decide)
  simp [token?, hmark, hrest]

theorem resume?_key (hne : key ≠ []) (hletters : ∀ c ∈ key, c.isAlphanum = true) (hlength : key.length ≤ 1024)
    (hrest : endsWord rest = true) (hindents : ∀ i ∈ indents.head?, i ≤ p.column) :
    resume? (fuel + 1) (between indents tokens ⟨key ++ ':' :: rest, p⟩ true) =
      tokens? fuel (between (deeper indents p.column) (tokens ++ keyTokens indents p.column key)
        ⟨rest, p.over (key ++ [':'])⟩ false) := by
  obtain ⟨c, key, rfl⟩ := List.exists_cons_of_ne_nil hne
  have hc := hletters c List.mem_cons_self
  have hmark : Cursor.atDocumentMark ⟨c :: (key ++ ':' :: rest), p⟩ = false :=
    Cursor.not_atDocumentMark_of_head ⟨Text.ne_of_test hc rfl, Text.ne_of_test hc rfl⟩
  rw [List.cons_append, resume?_cons rfl, token?_plain rfl hmark (beginsPlain_letter hc), ← List.cons_append,
    plain?_key hne hletters hrest hmark, Option.bind_some, tokens?_succ,
    approach?_atColon hletters hlength hindents, Option.bind_some, resume?_cons rfl, token?_atColon hrest,
    value?_atColon hindents, Option.bind_some]

theorem tokens?_gap (gap : List Char) (hgap : ∀ c ∈ gap, c = ' ' ∨ isBreak c = true) (h : Begins text) :
    tokens? (fuel + 1) (between indents tokens ⟨gap ++ text, p⟩ allowed) =
      resume? fuel ((between indents tokens ⟨text, p.over gap⟩ (allowed || gap.any isBreak)).closeBlocks
        ((p.over gap).column + 1)) := by
  rw [tokens?_succ, approach?_gap hgap h, Option.bind_some]

theorem saveKey?_notAllowed (k : Cursor) :
    (between indents tokens k false).saveKey? = some (between indents tokens k false) := rfl

theorem plain?_between {k k' : Cursor} {broken : Bool}
    (h : Plain.read? false (column + 1) k = some (cs, broken, k')) :
    (between (column :: outer) tokens k false).plain? =
      some (between (column :: outer) (tokens ++ [.scalar cs .plain]) k' broken) := by
  rw [plain?, saveKey?_notAllowed, Option.bind_eq_bind, Option.bind_some]
  simp [between, flow, Lexer.least, h, advance, put]

theorem content?_between {k k' : Cursor} {token : Token} {read : Cursor → Option (Token × Cursor)}
    (h : read k = some (token, k')) :
    (between indents tokens k false).content? read = some (between indents (tokens ++ [token]) k' false) := by
  rw [content?, saveKey?_notAllowed, Option.bind_eq_bind, Option.bind_some]
  simp [between, h, advance, put]

theorem block?_between {k k' : Cursor} (h : Block.read? false (column + 1) k = some (cs, k')) :
    (between (column :: outer) tokens k allowed).block? false =
      some (between (column :: outer) (tokens ++ [.scalar cs .literal]) k' true) := by
  simp [block?, dropKey?, between, Lexer.least, h, advance, put]

theorem token?_quote {l : Lexer} {double : Bool} (hmark : l.cursor.atDocumentMark = false) :
    l.token? (Quoted.quote double) rest = l.content? (readQuoted? double) := by
  cases double <;> simp [token?, Quoted.quote, hmark]

theorem token?_bar {l : Lexer} (hflow : l.flow = false) (hmark : l.cursor.atDocumentMark = false) :
    l.token? '|' rest = l.block? false := by
  simp [token?, hmark, hflow]

theorem resume?_plain (hbody : Plain.Body (c :: cs)) (hbegins : beginsPlain false c (cs ++ (gap ++ text)) = true)
    (hcolumn : column < p.column) (hgap : ∀ c ∈ gap, isSpacing c = true) (htab : '\t' ∉ gap)
    (htext : ∀ c ∈ text.head?, isSpacing c = false) (hstop : Plain.word? false (gap ++ text) = some [])
    (hend : ∀ p : Place, gap = [] ∨ (p.over gap).column ≤ column) :
    resume? fuel (between (column :: outer) tokens ⟨c :: cs ++ (gap ++ text), p⟩ false) =
      tokens? fuel (between (column :: outer) (tokens ++ [.scalar (c :: cs) .plain])
        ⟨text, p.over (c :: cs ++ gap)⟩ (gap.any isBreak)) := by
  have hread : Plain.read? false (column + 1) ⟨c :: cs ++ (gap ++ text), p⟩ =
      some (c :: cs, gap.any isBreak, ⟨text, p.over (c :: cs ++ gap)⟩) :=
    Plain.read?_body hgap htab htext hstop (fun p => (hend p).imp_right Nat.lt_succ_of_le) hbody
      (List.cons_ne_nil c cs) (Nat.zero_lt_of_lt hcolumn) hcolumn
  have hmark : Cursor.atDocumentMark ⟨c :: cs ++ (gap ++ text), p⟩ = false :=
    Cursor.not_atDocumentMark (Nat.ne_of_gt (Nat.zero_lt_of_lt hcolumn))
  rw [resume?_cons List.cons_append, token?_plain rfl hmark hbegins, plain?_between hread, Option.bind_some]

theorem resume?_quoted (double : Bool) {k : Cursor}
    (h : Quoted.read? double ⟨Quoted.quote double :: rest, p⟩ = some (cs, k)) :
    resume? fuel (between indents tokens ⟨Quoted.quote double :: rest, p⟩ false) =
      tokens? fuel (between indents (tokens ++ [.scalar cs (if double then .doubleQuoted else .singleQuoted)]) k
        false) := by
  have hmark : Cursor.atDocumentMark ⟨Quoted.quote double :: rest, p⟩ = false :=
    Cursor.not_atDocumentMark_of_head (by cases double <;> decide)
  have hread : readQuoted? double ⟨Quoted.quote double :: rest, p⟩ =
      some (.scalar cs (if double then .doubleQuoted else .singleQuoted), k) := by
    rw [readQuoted?, h]
    rfl
  rw [resume?_cons rfl, token?_quote hmark, content?_between hread, Option.bind_some]

theorem resume?_single (hindent : 0 < indent) (htext : text.head? ≠ some '\x27') (h : Quoted.Body cs) :
    resume? fuel (between indents tokens ⟨Writer.singleQuoted indent cs ++ text, p⟩ false) =
      tokens? fuel (between indents (tokens ++ [.scalar cs .singleQuoted])
        ⟨text, p.over (Writer.singleQuoted indent cs)⟩ false) := by
  have hread := Quoted.read?_single (p := p) hindent htext h
  rw [Writer.singleQuoted_eq] at hread ⊢
  exact resume?_quoted false hread

theorem resume?_double : resume? fuel (between indents tokens ⟨Writer.doubleQuoted cs ++ text, p⟩ false) =
    tokens? fuel (between indents (tokens ++ [.scalar cs .doubleQuoted]) ⟨text, p.over (Writer.doubleQuoted cs)⟩
      false) :=
  resume?_quoted true (Quoted.read?_double cs)

theorem resume?_literal (hn : n ≤ column) (hne : cs ≠ []) (htab : '\t' ∉ cs)
    (htext : ∀ c ∈ text.head?, isSpacing c = false) :
    resume? fuel (between (column :: outer) tokens
        ⟨Writer.literal (column + 2) cs ++ (Writer.lastEnd cs ++ (Writer.pad n ++ text)), p⟩ allowed) =
      tokens? fuel (between (column :: outer) (tokens ++ [.scalar cs .literal])
        ⟨text, p.over (Writer.literal (column + 2) cs ++ (Writer.lastEnd cs ++ Writer.pad n))⟩ true) := by
  have hread := Block.read?_literal (p := p) (Nat.succ_pos column) (Nat.le_succ_of_le hn) hne htab htext
  have hmark : Cursor.atDocumentMark
      ⟨Writer.literal (column + 2) cs ++ (Writer.lastEnd cs ++ (Writer.pad n ++ text)), p⟩ = false :=
    Cursor.not_atDocumentMark_of_head (c := '|') (by decide)
  rw [resume?_cons (c := '|') rfl, token?_bar rfl hmark, block?_between hread, Option.bind_some]

end Lexer

end PortLease.Yaml
