import PortLease.Proofs.Yaml.Legible
import PortLease.Yaml.Node.Reader

namespace PortLease.Yaml

variable {rest : List Token} {handles : List (List Char × TagName)} {anchors : List (List Char × Nat)} {fuel : Nat}

namespace Reading

theorem node?_scalar {text : List Char} {style : ScalarStyle} (context : Context) :
    node? (fuel + 1) context ⟨.scalar text style :: rest, handles, anchors⟩ =
      some (.scalar {} text style, ⟨rest, handles, anchors⟩) := by
  simp [node?, properties?, head?, tail]

theorem node?_blockMapping {context : Context} {members : List (Node × Node)} {r : Reading}
    (hcontext : context ≠ .flow) (h : blockMembers? fuel ⟨rest, handles, anchors⟩ = some (members, r)) :
    node? (fuel + 1) context ⟨.blockMapping :: rest, handles, anchors⟩ = some (.mapping {} members, r) := by
  simp [node?, properties?, head?, tail, hcontext, h]

theorem blockMembers?_key : blockMembers? (fuel + 1) ⟨.key :: rest, handles, anchors⟩ =
    (nodeOrEmpty? fuel .blockMember memberEnds ⟨rest, handles, anchors⟩).bind fun (key, r) =>
      (valueOrEmpty? fuel .blockMember memberEnds r).bind fun (value, r) =>
        (blockMembers? fuel r).bind fun (members, r) => some ((key, value) :: members, r) := by
  rw [blockMembers?]
  rfl

theorem nodeOrEmpty?_outline (o : Outline) (context : Context) :
    nodeOrEmpty? (fuel + 1) context memberEnds ⟨o.tokens ++ rest, handles, anchors⟩ =
      node? fuel context ⟨o.tokens ++ rest, handles, anchors⟩ := by
  have hgap : isGap memberEnds (head? ⟨o.tokens ++ rest, handles, anchors⟩) = false := by
    cases o <;> simp [Outline.tokens, isGap, head?, memberEnds]
  rw [nodeOrEmpty?, hgap, if_neg Bool.false_ne_true]

def Parses (o : Outline) : Prop :=
  ∀ ⦃fuel : Nat⦄ ⦃context : Context⦄ ⦃rest : List Token⦄, o.tokens.length ≤ fuel → context ≠ .flow →
    ∀ handles anchors, node? fuel context ⟨o.tokens ++ rest, handles, anchors⟩ = some (o.node, ⟨rest, handles, anchors⟩)

def ParsesMembers (members : List (String × Outline)) : Prop :=
  ∀ ⦃fuel : Nat⦄ ⦃rest : List Token⦄, (Outline.tokensOfMembers members).length < fuel →
    ∀ handles anchors, blockMembers? fuel ⟨Outline.tokensOfMembers members ++ .blockEnd :: rest, handles, anchors⟩ =
      some (Outline.nodesOfMembers members, ⟨rest, handles, anchors⟩)

theorem parses_scalar {text : List Char} {style : ScalarStyle} {o : Outline} (htokens : o.tokens = [.scalar text style])
    (hnode : o.node = .scalar {} text style) : Parses o := by
  intro fuel context rest hfuel hcontext handles anchors
  rw [htokens] at hfuel ⊢
  obtain ⟨fuel, rfl⟩ := Nat.exists_eq_add_of_le' hfuel
  rw [hnode]
  exact node?_scalar context

theorem parses_mapping {members : List (String × Outline)} (h : ParsesMembers members) : Parses (.mapping members) := by
  intro fuel context rest hfuel hcontext handles anchors
  rw [Outline.tokens] at hfuel ⊢
  obtain ⟨fuel, rfl⟩ : ∃ n, fuel = n + 1 := ⟨fuel - 1, by simp at hfuel; omega⟩
  have hmembers : (Outline.tokensOfMembers members).length < fuel := by
    simp at hfuel
    omega
  rw [List.cons_append, List.cons_append, List.append_assoc]
  exact node?_blockMapping hcontext (h hmembers handles anchors)

theorem parsesMembers_nil : ParsesMembers [] := by
  intro fuel rest hfuel handles anchors
  obtain ⟨fuel, rfl⟩ := Nat.exists_eq_add_of_le' (Nat.succ_le_of_lt hfuel)
  rfl

theorem parsesMembers_cons {key : String} {value : Outline} {members : List (String × Outline)} (hvalue : Parses value)
    (hmembers : ParsesMembers members) : ParsesMembers ((key, value) :: members) := by
  intro fuel rest hfuel handles anchors
  have hlength : (Outline.tokensOfMembers ((key, value) :: members)).length =
      3 + value.tokens.length + (Outline.tokensOfMembers members).length := by simp [Outline.tokensOfMembers]; omega
  obtain ⟨fuel, rfl⟩ : ∃ n, fuel = n + 4 := ⟨fuel - 4, by omega⟩
  have hkey (rest : List Token) : nodeOrEmpty? (fuel + 3) .blockMember memberEnds
      ⟨.scalar key.toList .plain :: rest, handles, anchors⟩ =
      some (.scalar {} key.toList .plain, ⟨rest, handles, anchors⟩) :=
    (nodeOrEmpty?_outline (.word key) .blockMember).trans (node?_scalar .blockMember)
  have hvalue (rest : List Token) : valueOrEmpty? (fuel + 3) .blockMember memberEnds
      ⟨.value :: (value.tokens ++ rest), handles, anchors⟩ = some (value.node, ⟨rest, handles, anchors⟩) := by
    rw [valueOrEmpty?, head?, List.head?_cons, if_pos rfl]
    exact (nodeOrEmpty?_outline value .blockMember).trans (hvalue (by omega) (by decide) handles anchors)
  have hrest : blockMembers? (fuel + 3) ⟨Outline.tokensOfMembers members ++ .blockEnd :: rest, handles, anchors⟩ =
      some (Outline.nodesOfMembers members, ⟨rest, handles, anchors⟩) := hmembers (by omega) handles anchors
  simp only [Outline.tokensOfMembers, List.append_assoc, List.cons_append, List.nil_append, blockMembers?_key, hkey,
    hvalue, hrest, Option.bind_some, Outline.nodesOfMembers]

mutual

theorem parses (o : Outline) : Parses o := by
  match o with
  | .word w => exact parses_scalar rfl rfl
  | .text cs => exact parses_scalar rfl rfl
  | .mapping members => exact parses_mapping (parsesMembers members)

theorem parsesMembers (members : List (String × Outline)) : ParsesMembers members := by
  match members with
  | [] => exact parsesMembers_nil
  | (key, value) :: rest => exact parsesMembers_cons (parses value) (parsesMembers rest)

end

end Reading

theorem Node.ofTokens?_mapping (members : List (String × Outline)) :
    Node.ofTokens? (Outline.mapping members).tokens = some (some (Outline.mapping members).node) := by
  have hfuel : (Outline.mapping members).tokens.length ≤ Reading.depth (Outline.mapping members).tokens := by
    rw [Reading.depth]
    omega
  have hparse : Reading.node? (Reading.depth (Outline.mapping members).tokens) .block
      ⟨(Outline.mapping members).tokens ++ [], Reading.defaultHandles, []⟩ =
      some ((Outline.mapping members).node, ⟨[], Reading.defaultHandles, []⟩) :=
    Reading.parses (.mapping members) hfuel (by decide) _ _
  rw [List.append_nil] at hparse
  rw [Outline.tokens, List.cons_append] at hparse ⊢
  simp [ofTokens?, hparse, Reading.finish?]

theorem Node.ofText?_mappingText {members : List (String × Outline)} (hne : members ≠ [])
    (hmembers : Outline.ProperMembers members) :
    Node.ofText? (Outline.mappingText members) = some (some (Outline.mapping members).node) := by
  have hlegible : Legible (Outline.mappingText members) := legible_members 0 true members hmembers
  rw [ofText?, readable?_legible hlegible, Option.bind_some, Token.ofText?_mappingText hne hmembers, Option.bind_some,
    ofTokens?_mapping]

theorem Node.ofText?_member {key word : String} (hkey : Outline.IsKey key) (hword : Outline.IsWord word)
    {ending : List Char} (hending : ending = [] ∨ ending = ['\n']) :
    Node.ofText? (key.toList ++ ':' :: ' ' :: word.toList ++ ending) =
      some (some (Outline.mapping [(key, .word word)]).node) := by
  obtain rfl | rfl := hending
  · have hlegible : Legible (key.toList ++ ':' :: ' ' :: word.toList) :=
      (legible_letters hkey.letters).append
        (legible_cons.mpr ⟨rfl, legible_cons.mpr ⟨rfl, legible_letters hword.letters⟩⟩)
    rw [List.append_nil, ofText?, readable?_legible hlegible, Option.bind_some, Token.ofText?_member hkey hword,
      Option.bind_some, ofTokens?_mapping]
  · have htext : key.toList ++ ':' :: ' ' :: word.toList ++ ['\n'] = Outline.mappingText [(key, .word word)] := by
      simp [Outline.mappingText, Outline.renderMembers, Outline.render, Writer.pad]
    rw [htext]
    refine Node.ofText?_mappingText (List.cons_ne_nil _ _) ?_
    simp [Outline.ProperMembers, Outline.Proper, hkey, hword]

namespace Outline

mutual

theorem denotes_node (o : Outline) : o.Denotes o.node := by
  match o with
  | .word w => rfl
  | .text cs =>
    refine ⟨Writer.style cs, rfl, fun hplain => ?_⟩
    obtain ⟨-, -, hatom, -⟩ | ⟨hstyle, -⟩ | hstyle | ⟨hstyle, -⟩ := Writer.style_cases cs
    · exact hatom
    all_goals
      rw [hstyle] at hplain
      cases hplain
  | .mapping members => exact ⟨_, rfl, denotesMembers_nodesOfMembers members⟩

theorem denotesMembers_nodesOfMembers (members : List (String × Outline)) :
    DenotesMembers members (nodesOfMembers members) := by
  match members with
  | [] => rfl
  | (key, value) :: rest => exact ⟨_, _, rfl, denotes_node value, denotesMembers_nodesOfMembers rest⟩

end

end Outline

theorem roundTrip : RoundTrip Node.ofText? Outline.mappingText where
  printed hne hmembers := ⟨_, Node.ofText?_mappingText hne hmembers, Outline.denotes_node _⟩
  line hkey hword hending := ⟨_, Node.ofText?_member hkey hword hending, Outline.denotes_node _⟩

end PortLease.Yaml
