import FlowScript.Script.Literal

/-!
# Reading double-quoted strings

`StringLiteral.read?` reads a double-quoted string the way a script does: a quote ends it, a backslash begins an
escape, and a line cannot end inside it.  Of the escapes of a script it knows those that are written here, and refuses
the others.  Whatever text a string was written from is found again (`read?_quote`).
-/

namespace FlowScript

namespace StringLiteral

/-- The character that an escape stands for. -/
def unescape? : Char → Option Char
  | '\\' => some '\\'
  | '"' => some '"'
  | 'n' => some '\n'
  | 'r' => some '\r'
  | 't' => some '\t'
  | _ => none

/-- Reads to the end of a string; `text` is the text so far, in reverse.  What follows the string is returned with
it. -/
def readText? (text : List Char) : List Char → Option (String × List Char)
  | [] => none
  | '"' :: rest => some (String.ofList text.reverse, rest)
  | '\\' :: c :: rest =>
    match unescape? c with
    | some d => readText? (d :: text) rest
    | none => none
  | c :: rest => if c = '\\' ∨ c = '\n' ∨ c = '\r' then none else readText? (c :: text) rest

/-- The string at the front of a text, and what follows it. -/
def read? : List Char → Option (String × List Char)
  | '"' :: rest => readText? [] rest
  | _ => none

variable {text rest : List Char} {c d : Char}

theorem readText?_end : readText? text ('"' :: rest) = some (String.ofList text.reverse, rest) := by
  rw [readText?]

theorem readText?_escape (h : unescape? c = some d) :
    readText? text ('\\' :: c :: rest) = readText? (d :: text) rest := by
  rw [readText?, h]

theorem readText?_char (hquote : c ≠ '"') (hslash : c ≠ '\\') (hline : c ≠ '\n' ∧ c ≠ '\r') :
    readText? text (c :: rest) = readText? (c :: text) rest := by
  conv => lhs; rw [readText?.eq_def]
  split
  · next heq => cases heq
  · next heq => exact absurd (List.cons.inj heq).1 hquote
  · next heq => exact absurd (List.cons.inj heq).1 hslash
  · next heq =>
    cases heq
    rw [if_neg (by simp [hslash, hline])]

/-- A character is written as an escape that stands for it, or as itself. -/
theorem escapeChar_cases (c : Char) :
    (∃ e, Script.escapeChar c = ['\\', e] ∧ unescape? e = some c ∧ e ≠ '\n' ∧ e ≠ '\r') ∨
      Script.escapeChar c = [c] ∧ c ≠ '"' ∧ c ≠ '\\' ∧ c ≠ '\n' ∧ c ≠ '\r' := by
  by_cases hslash : c = '\\'
  · subst hslash
    exact .inl ⟨'\\', rfl, rfl, by decide⟩
  by_cases hquote : c = '"'
  · subst hquote
    exact .inl ⟨'"', rfl, rfl, by decide⟩
  by_cases hlf : c = '\n'
  · subst hlf
    exact .inl ⟨'n', rfl, rfl, by decide⟩
  by_cases hcr : c = '\r'
  · subst hcr
    exact .inl ⟨'r', rfl, rfl, by decide⟩
  by_cases htab : c = '\t'
  · subst htab
    exact .inl ⟨'t', rfl, rfl, by decide⟩
  refine .inr ⟨?_, hquote, hslash, hlf, hcr⟩
  rw [Script.escapeChar, if_neg hslash, if_neg hquote, if_neg hlf, if_neg hcr, if_neg htab]

/-- A character is read as it was written. -/
theorem readText?_escapeChar (c : Char) (text rest : List Char) :
    readText? text (Script.escapeChar c ++ rest) = readText? (c :: text) rest := by
  rcases escapeChar_cases c with ⟨e, hescape, hunescape, -⟩ | ⟨hescape, hquote, hslash, hline⟩
  · rw [hescape]
    exact readText?_escape hunescape
  · rw [hescape, List.singleton_append, readText?_char hquote hslash hline]

theorem readText?_flatMap_escapeChar (cs text rest : List Char) :
    readText? text (cs.flatMap Script.escapeChar ++ rest) = readText? (cs.reverse ++ text) rest := by
  induction cs generalizing text with
  | nil => rfl
  | cons c cs ih =>
    rw [List.flatMap_cons, List.append_assoc, readText?_escapeChar, ih, List.reverse_cons, List.append_assoc,
      List.singleton_append]

theorem toList_quote (s : String) :
    (Script.quote s).toList = '"' :: (s.toList.flatMap Script.escapeChar ++ ['"']) := by
  simp [Script.quote]

/-- A quoted text is read as the text, to its last character. -/
theorem read?_quote (s : String) (rest : List Char) : read? ((Script.quote s).toList ++ rest) = some (s, rest) := by
  rw [toList_quote, List.cons_append, List.append_assoc, List.singleton_append, read?, readText?_flatMap_escapeChar,
    readText?_end, List.append_nil, List.reverse_reverse, String.ofList_toList]

/-- Reading a string takes something off the text. -/
theorem length_readText? {cs : List Char} {s : String} (h : readText? text cs = some (s, rest)) :
    rest.length < cs.length := by
  fun_induction readText? text cs with
  | case1 => cases h
  | case2 text rest' =>
    cases h
    simp
  | case3 text c rest' d hd ih =>
    have := ih h
    simp only [List.length_cons]
    omega
  | case4 => cases h
  | case5 => cases h
  | case6 text c rest' hquote hslash hline ih =>
    have := ih h
    simp only [List.length_cons]
    omega

end StringLiteral

end FlowScript
