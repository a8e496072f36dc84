import Mathlib.Data.Set.Operations
import PortLease.Proofs.Socket.Listeners
import PortLease.Proofs.Text.Trim

namespace PortLease

namespace Text

theorem isBlank_toUpper (c : Char) : isBlank c.toUpper = isBlank c :=
  case_induction (P := fun c => isBlank c.toUpper = isBlank c) (by decide) (fun c hupper _ => by rw [hupper]) c

theorem toUpper_toUpper (c : Char) : c.toUpper.toUpper = c.toUpper :=
  case_induction (P := fun c => c.toUpper.toUpper = c.toUpper) (by decide) (fun c hupper _ => by rw [hupper, hupper]) c

theorem toUpper_toLower (c : Char) : c.toLower.toUpper = c.toUpper :=
  case_induction (P := fun c => c.toLower.toUpper = c.toUpper) (by decide) (fun c _ hlower => by rw [hlower]) c

theorem asciiUpper_asciiUpper (cs : List Char) : asciiUpper (asciiUpper cs) = asciiUpper cs := by
  rw [asciiUpper, asciiUpper, List.map_map]
  exact List.map_congr_left fun c _ => toUpper_toUpper c

theorem asciiUpper_asciiLower (cs : List Char) : asciiUpper (asciiLower cs) = asciiUpper cs := by
  rw [asciiUpper, asciiLower, asciiUpper, List.map_map]
  exact List.map_congr_left fun c _ => toUpper_toLower c

theorem trim_asciiUpper (cs : List Char) : trim (asciiUpper cs) = asciiUpper (trim cs) := by
  have hblank : isBlank ∘ Char.toUpper = isBlank := funext isBlank_toUpper
  simp only [trim_eq, asciiUpper, List.rdropWhile, List.dropWhile_map, hblank, ← List.map_reverse]

end Text

namespace ConnectionState

variable {cs ds : List Char} {name : String} {state : ConnectionState}

def IsKnown (state : ConnectionState) : Prop := ∀ name, state ≠ .other name

/-- The texts are the same but for the white space around them and the case of ASCII letters. -/
def Alike (cs ds : List Char) : Prop :=
  ∃ before body after before' body' after' : List Char,
    cs = before ++ body ++ after ∧ ds = before' ++ body' ++ after' ∧
    (∀ c ∈ before ++ after ++ before' ++ after', Text.isBlank c = true) ∧
    Text.asciiLower body = Text.asciiLower body'

theorem eq_of_ofName_eq_other {unknown : String} (h : ofName name = .other unknown) : name = unknown := by
  unfold ofName at h
  split at h <;> cases h
  rfl

theorem ofChars_other (h : ofChars cs = .other name) : ofChars name.toList = .other name := by
  have hname : name = String.ofList (Text.asciiUpper (Text.trim cs)) := (eq_of_ofName_eq_other h).symm
  -- the name that is kept is trimmed and in upper case already
  have hstays : Text.asciiUpper (Text.trim name.toList) = Text.asciiUpper (Text.trim cs) := by
    rw [hname, String.toList_ofList, Text.trim_asciiUpper, Text.trim_trim, Text.asciiUpper_asciiUpper]
  rw [ofChars, hstays]
  exact h

theorem IsKnown.ofChars_text (h : state.IsKnown) : ofChars state.text.toList = state := by
  cases state with
  | other name => exact absurd rfl (h name)
  | _ => decide +kernel

theorem ofChars_text (cs : List Char) : ofChars (ofChars cs).text.toList = ofChars cs := by
  by_cases h : (ofChars cs).IsKnown
  · exact h.ofChars_text
  · simp only [IsKnown, ne_eq, not_forall, not_not] at h
    obtain ⟨name, hname⟩ := h
    rw [hname]
    exact ofChars_other hname

theorem text_injOn : Set.InjOn text (Set.range ofChars) := by
  rintro _ ⟨cs, rfl⟩ _ ⟨ds, rfl⟩ htext
  rw [← ofChars_text cs, ← ofChars_text ds, htext]

theorem IsKnown.text_ne (h : state.IsKnown) (hname : ofChars cs = .other name) : state.text ≠ name := by
  intro htext
  have hother : state = .other name := by
    rw [← h.ofChars_text, htext]
    exact ofChars_other hname
  exact h name hother

theorem Alike.ofChars_eq (h : Alike cs ds) : ofChars cs = ofChars ds := by
  obtain ⟨before, body, after, before', body', after', rfl, rfl, hblank, hcase⟩ := h
  simp only [List.mem_append] at hblank
  have hbody : Text.trim (before ++ body ++ after) = Text.trim body :=
    Text.trim_append body (fun c hc => hblank c (by simp [hc])) fun c hc => hblank c (by simp [hc])
  have hbody' : Text.trim (before' ++ body' ++ after') = Text.trim body' :=
    Text.trim_append body' (fun c hc => hblank c (by simp [hc])) fun c hc => hblank c (by simp [hc])
  have hupper : Text.asciiUpper body = Text.asciiUpper body' := by
    rw [← Text.asciiUpper_asciiLower body, hcase, Text.asciiUpper_asciiLower]
  rw [ofChars, ofChars, hbody, hbody', ← Text.trim_asciiUpper, hupper, Text.trim_asciiUpper]

theorem states_read_back (cs : List Char) :
    ofChars (ofChars cs).text.toList = ofChars cs ∧
    Set.InjOn text (Set.range ofChars) ∧
    (∀ name, ofChars cs = .other name → ∀ state : ConnectionState, state.IsKnown → state.text ≠ name) ∧
    (∀ ds, Alike cs ds → ofChars cs = ofChars ds) ∧
    ((ofChars cs).isListening = true ↔ Text.asciiUpper (Text.trim cs) = "LISTEN".toList) :=
  ⟨ofChars_text cs, text_injOn, fun _ hname _ hknown => hknown.text_ne hname, fun _ h => h.ofChars_eq,
    isListening_ofChars⟩

theorem alike_bound : Alike " bound".toList "BOUND\u2003".toList :=
  ⟨" ".toList, "bound".toList, [], [], "BOUND".toList, "\u2003".toList, rfl, rfl,
    List.all_eq_true.mp (by decide +kernel), by decide +kernel⟩

theorem states_read_back_bound :
    ofChars " bound".toList = .other "BOUND" ∧ ofChars " bound".toList = ofChars "BOUND\u2003".toList ∧
      text .closing ≠ "BOUND" := by
  have hbound : ofChars " bound".toList = .other "BOUND" := by decide +kernel
  obtain ⟨-, -, hother, halike, -⟩ := states_read_back " bound".toList
  exact ⟨hbound, halike _ alike_bound, hother "BOUND" hbound .closing nofun⟩

end ConnectionState

end PortLease
