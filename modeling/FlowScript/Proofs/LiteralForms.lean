import FlowScript.Proofs.CompactText
import FlowScript.Proofs.StringLiteral

/-!
# Two ways to write a value

A value of a document has two texts: the literal that stands for it in a script, and its compact JSON text.  They are the
same unless the value is a text, and for a text they are the same unless it has a control character that JSON escapes
and a script's string leaves as it is (`Script.quote_eq_iff`).  Below the top there is only one way: whatever text is put
in a place inside a list or an object stands there as a JSON string, and nothing else of the literal depends on it
(`TextPlace.exists_compact_fill`).
-/

namespace FlowScript

/-! ### Texts -/

namespace Script

/-- A control character for which a double-quoted string has no escape. -/
def IsRaw (c : Char) : Prop := c.toNat < 0x20 ∧ c ≠ '\n' ∧ c ≠ '\r' ∧ c ≠ '\t'

variable {c : Char}

theorem IsRaw.ne_of_le (h : IsRaw c) {d : Char} (hd : 0x20 ≤ d.toNat) : c ≠ d := by
  rintro rfl
  have hlow := h.1
  omega

theorem IsRaw.escapeChar_eq (h : IsRaw c) : escapeChar c = [c] := by
  have hslash : c ≠ '\\' := h.ne_of_le (by decide)
  have hquote : c ≠ '"' := h.ne_of_le (by decide)
  rw [escapeChar, if_neg hslash, if_neg hquote, if_neg h.2.1, if_neg h.2.2.1, if_neg h.2.2.2]

/-- What JSON does not escape is no control character. -/
theorem exists_escape_eq_cons (h : c.toNat < 0x20) : ∃ rest, Json.escape c = '\\' :: rest := by
  unfold Json.escape
  split_ifs
  all_goals exact ⟨_, rfl⟩

/-- Both know the same short escapes, for all but the control characters. -/
theorem escapeChar_eq_escape (h : ¬IsRaw c) : escapeChar c = Json.escape c := by
  by_cases hslash : c = '\\'
  · subst hslash
    rfl
  by_cases hquote : c = '"'
  · subst hquote
    rfl
  by_cases hlf : c = '\n'
  · subst hlf
    rfl
  by_cases hcr : c = '\r'
  · subst hcr
    rfl
  by_cases htab : c = '\t'
  · subst htab
    rfl
  have hlow : ¬c.toNat < 0x20 := fun hlow => h ⟨hlow, hlf, hcr, htab⟩
  have hbackspace : c ≠ '\x08' := by
    rintro rfl
    exact hlow (by decide)
  have hfeed : c ≠ '\x0c' := by
    rintro rfl
    exact hlow (by decide)
  rw [escapeChar, if_neg hslash, if_neg hquote, if_neg hlf, if_neg hcr, if_neg htab]
  rw [Json.escape, if_neg hquote, if_neg hslash, if_neg hbackspace, if_neg hfeed, if_neg hlf, if_neg hcr, if_neg htab,
    if_neg hlow]

/-- Two escaped texts part at the first control character that is left as it is. -/
theorem flatMap_escapeChar_eq_iff (cs : List Char) :
    cs.flatMap escapeChar = cs.flatMap Json.escape ↔ ∀ c ∈ cs, ¬IsRaw c := by
  induction cs with
  | nil => simp
  | cons c cs ih =>
    rw [List.flatMap_cons, List.flatMap_cons, List.forall_mem_cons]
    by_cases h : IsRaw c
    · obtain ⟨rest, hrest⟩ := exists_escape_eq_cons h.1
      have hne : c ≠ '\\' := h.ne_of_le (by decide)
      simp [h, h.escapeChar_eq, hrest, hne]
    · rw [escapeChar_eq_escape h, List.append_cancel_left_eq, ih]
      simp [h]

theorem quote_eq_iff (s : String) : quote s = Json.quote s ↔ ∀ c ∈ s.toList, ¬IsRaw c := by
  rw [← flatMap_escapeChar_eq_iff, ← String.toList_inj, StringLiteral.toList_quote, Json.toList_quote, List.cons.injEq,
    List.append_cancel_right_eq]
  simp

end Script

/-! ### Texts inside lists and objects -/

/-- A place for a text inside a list or an object: as an item, as a value or as a key, at any depth. -/
inductive TextPlace where
  | item (before after : List Tree)
  | value (before : Fields) (key : String) (after : Fields)
  | key (before : Fields) (value : Tree) (after : Fields)
  | insideItem (before : List Tree) (place : TextPlace) (after : List Tree)
  | insideValue (before : Fields) (key : String) (place : TextPlace) (after : Fields)

namespace TextPlace

/-- The list or object with a text in its place. -/
def fill (text : String) : TextPlace → Tree
  | item before after => .arr (before ++ .str text :: after)
  | value before k after => .obj (before ++ (k, .str text) :: after)
  | key before t after => .obj (before ++ (text, t) :: after)
  | insideItem before place after => .arr (before ++ place.fill text :: after)
  | insideValue before k place after => .obj (before ++ (k, place.fill text) :: after)

theorem exists_compactItems_append (before after : List Tree) :
    ∃ front back, ∀ t, Tree.compactItems (before ++ t :: after) = front ++ t.compact ++ back := by
  induction before with
  | nil =>
    cases after with
    | nil => exact ⟨"", "", fun t => by simp [Tree.compactItems]⟩
    | cons u after =>
      exact ⟨"", "," ++ Tree.compactItems (u :: after), fun t => by simp [Tree.compactItems, String.append_assoc]⟩
  | cons u before ih =>
    obtain ⟨front, back, h⟩ := ih
    refine ⟨u.compact ++ "," ++ front, back, ?_⟩
    intro t
    rw [List.cons_append, Tree.compactItems, h]
    · simp only [String.append_assoc]
    · simp

theorem exists_compactFields_append (before after : Fields) :
    ∃ front back, ∀ k t,
      Tree.compactFields (before ++ (k, t) :: after) = front ++ Json.quote k ++ (":" ++ t.compact ++ back) := by
  induction before with
  | nil =>
    cases after with
    | nil => exact ⟨"", "", fun k t => by simp [Tree.compactFields, String.append_assoc]⟩
    | cons f after =>
      exact ⟨"", "," ++ Tree.compactFields (f :: after), fun k t => by simp [Tree.compactFields, String.append_assoc]⟩
  | cons f before ih =>
    obtain ⟨front, back, h⟩ := ih
    refine ⟨Json.quote f.1 ++ ":" ++ f.2.compact ++ "," ++ front, back, ?_⟩
    intro k t
    rw [List.cons_append, Tree.compactFields, h]
    · simp only [String.append_assoc]
    · simp

/-- The text of a list or an object has a JSON string in the place of a text, and nothing else in it depends on that
text. -/
theorem exists_compact_fill (place : TextPlace) :
    ∃ front back, ∀ text, (place.fill text).compact = front ++ Json.quote text ++ back := by
  induction place with
  | item before after =>
    obtain ⟨front, back, h⟩ := exists_compactItems_append before after
    refine ⟨"[" ++ front, back ++ "]", ?_⟩
    intro text
    simp only [fill, Tree.compact, h, String.append_assoc]
  | value before k after =>
    obtain ⟨front, back, h⟩ := exists_compactFields_append before after
    refine ⟨"\x7b" ++ front ++ Json.quote k ++ ":", back ++ "\x7d", ?_⟩
    intro text
    simp only [fill, Tree.compact, h, String.append_assoc]
  | key before t after =>
    obtain ⟨front, back, h⟩ := exists_compactFields_append before after
    refine ⟨"\x7b" ++ front, ":" ++ t.compact ++ back ++ "\x7d", ?_⟩
    intro text
    simp only [fill, Tree.compact, h, String.append_assoc]
  | insideItem before place after ih =>
    obtain ⟨inner, inner', ih⟩ := ih
    obtain ⟨front, back, h⟩ := exists_compactItems_append before after
    refine ⟨"[" ++ front ++ inner, inner' ++ back ++ "]", ?_⟩
    intro text
    simp only [fill, Tree.compact, h, ih, String.append_assoc]
  | insideValue before k place after ih =>
    obtain ⟨inner, inner', ih⟩ := ih
    obtain ⟨front, back, h⟩ := exists_compactFields_append before after
    refine ⟨"\x7b" ++ front ++ Json.quote k ++ ":" ++ inner, inner' ++ back ++ "\x7d", ?_⟩
    intro text
    simp only [fill, Tree.compact, h, ih, String.append_assoc]

theorem literal_fill (place : TextPlace) (text : String) :
    Script.literal (place.fill text) = (place.fill text).compact := by
  cases place <;> rfl

end TextPlace

/-! ### Values -/

/-- The literal of a value is its JSON text, except for a text with a control character other than LF, CR and TAB.
Inside lists and objects every text is written as a JSON string. -/
theorem literal_eq_compact_iff :
    (∀ v : Tree, Script.literal v = v.compact ↔
      ¬∃ s, v = .str s ∧ ∃ c ∈ s.toList, c.toNat < 0x20 ∧ c ≠ '\n' ∧ c ≠ '\r' ∧ c ≠ '\t') ∧
    ∀ place : TextPlace, ∃ front back, ∀ text,
      Script.literal (place.fill text) = front ++ Json.quote text ++ back := by
  constructor
  · intro v
    cases v with
    | str s =>
      change Script.quote s = Json.quote s ↔ _
      rw [Script.quote_eq_iff]
      simp [Script.IsRaw]
    | _ => simp [Script.literal]
  · intro place
    obtain ⟨front, back, h⟩ := place.exists_compact_fill
    refine ⟨front, back, ?_⟩
    intro text
    rw [place.literal_fill, h]

end FlowScript
