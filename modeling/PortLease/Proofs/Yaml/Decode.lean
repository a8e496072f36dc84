import PortLease.Proofs.Yaml.CoreSchema
import PortLease.Proofs.Yaml.RoundTrip
import PortLease.Yaml.Value

namespace PortLease.Yaml

variable {α : Type} {d : Document} {cs : List Char} {style : ScalarStyle} {n bound : Nat} {node : Node}

/-- The reader gives back what is written. -/
def Reads (read : Node → Decoding α) (write : α → Outline) : Prop :=
  ∀ a node, (write a).Denotes node → read node = pure a

namespace Document

theorem text_scalar {p : Properties} : d.text (.scalar p cs style) = pure cs := rfl

theorem members_mapping {p : Properties} {members : List (Node × Node)} :
    d.members (.mapping p members) = pure members := rfl

theorem reads_text : Reads d.text .text := by
  rintro cs node ⟨style, rfl, -⟩
  rfl

theorem reads_bool : Reads d.bool .bool := by
  rintro b node rfl
  cases b <;> rfl

theorem natBelow_denotes (h : n < bound) (hnode : (Outline.nat n).Denotes node) : d.natBelow bound node = pure n := by
  have hnat : (CoreSchema.nat? (toString n).toList).filter (· < bound) = some n := by
    rw [CoreSchema.nat?_toString]
    simp [h]
  obtain rfl : node = .scalar {} (toString n).toList .plain := hnode
  have hread : d.natBelow bound (.scalar {} (toString n).toList .plain) =
      StateT.lift ((CoreSchema.nat? (toString n).toList).filter (· < bound)) := rfl
  rw [hread, hnat]
  rfl

def Tells (node : Node) : Prop :=
  ∀ cs, node = .scalar {} cs .plain → cs ≠ [] ∧ CoreSchema.isNull cs = false

theorem tells_text (cs : List Char) (hnode : (Outline.text cs).Denotes node) : Tells node := by
  obtain ⟨style, rfl, htext⟩ := hnode
  rintro _ ⟨⟩
  have hatom := htext rfl
  rw [CoreSchema.atom] at hatom
  split at hatom
  · cases hatom
  · rename_i hsays
    rw [Bool.or_eq_true, not_or, List.isEmpty_iff, Bool.not_eq_true] at hsays
    exact hsays

theorem tells_mapping (members : List (String × Outline)) (hnode : (Outline.mapping members).Denotes node) :
    Tells node := by
  obtain ⟨nodes, rfl, -⟩ := hnode
  nofun

theorem optional_tells {o : Outline} (hnode : o.Denotes node) (h : Tells node) (read : Node → Decoding α) :
    d.optional read node = some <$> read node := by
  have hscalar (text : List Char) (style : ScalarStyle) (hnode : node = .scalar {} text style) :
      d.optional read node = some <$> read node := by
    have hread : d.optional read (.scalar {} text .plain) =
        if text.isEmpty || CoreSchema.isNull text then pure none else some <$> read (.scalar {} text .plain) := rfl
    rw [hnode]
    cases style with
    | plain =>
      obtain ⟨hne, hnull⟩ := h text hnode
      rw [hread, List.isEmpty_eq_false_iff.mpr hne, hnull]
      rfl
    | _ => rfl
  cases o with
  | word w => exact hscalar _ _ hnode
  | text cs =>
    obtain ⟨style, hnode, -⟩ := hnode
    exact hscalar _ _ hnode
  | mapping members =>
    obtain ⟨nodes, rfl, -⟩ := hnode
    rfl

theorem reads_optional {read : Node → Decoding α} {write : α → Outline} (hread : Reads read write)
    (htells : ∀ a node, (write a).Denotes node → Tells node) : Reads (d.optional read) (Outline.optional write) := by
  intro value node hnode
  cases value with
  | none =>
    obtain rfl : node = .scalar {} "null".toList .plain := hnode
    rfl
  | some a =>
    rw [Outline.optional] at hnode
    rw [optional_tells hnode (htells a node hnode), hread a node hnode]
    rfl

end Document

theorem decode?_lift {parse : Parser} {read : Document → Node → Decoding α} {value : Option α}
    (hparse : parse cs = some (some node)) (hread : ∀ d, read d node = StateT.lift value) :
    decode? parse read cs = value := by
  have hroot : decode? parse read cs =
      ((read (Document.ofRoot node) node).run (Document.ofRoot node).budget).map Prod.fst := by
    rw [decode?, hparse]
    rfl
  rw [hroot, hread]
  cases value <;> rfl

theorem Value.ofNode_scalar (depth : Nat) (p : Properties) :
    Value.ofNode d depth (.scalar p cs style) = StateT.lift ((ofScalar? p.tag cs style).bind (withTag? p.tag)) := by
  delta ofNode
  cases depth <;> rfl

end PortLease.Yaml
