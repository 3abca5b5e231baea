import FlowScript.Proofs.Interpolation
import FlowScript.Proofs.StringLiteral

/-!
# Quoted texts

A quoted text can be found and undone without knowing what it was made from.  `StringLiteral.scan?` finds where a string
ends and does not look at what the escapes stand for; `StringLiteral.decode?` undoes the escapes in one pass over the
body.  What `Script.quote` writes spells the text it was made from in this sense (`spells_quote`), and a string spells
one text only (`Spells.unique`), so nothing is lost.  The escapes can also be written by replacing one character after
another in the whole text, as long as the backslash comes first (`flatMap_escapeChar_eq_foldl`).
-/

namespace FlowScript

namespace StringLiteral

/-- The body of a string, up to the quote that ends it, and what follows that quote.  A backslash takes the next
character with it, whatever that is. -/
def scan? : List Char → Option (List Char × List Char)
  | [] => none
  | '"' :: rest => some ([], rest)
  | '\\' :: c :: rest => (scan? rest).map fun r => ('\\' :: c :: r.1, r.2)
  | c :: rest => if c = '\\' then none else (scan? rest).map fun r => (c :: r.1, r.2)

/-- The text that a body stands for. -/
def decode? : List Char → Option (List Char)
  | [] => some []
  | '\\' :: e :: rest =>
    match unescape? e with
    | some c => (decode? rest).map (c :: ·)
    | none => none
  | c :: rest => if c = '\\' then none else (decode? rest).map (c :: ·)

/-- A double-quoted string that spells a text: it is on one line, the quote at its end is the first one that no
backslash takes, and its body decodes to the text. -/
structure Spells (literal text : String) (body : List Char) : Prop where
  quoted : literal.toList = '"' :: (body ++ ['"'])
  lf_not_mem : '\n' ∉ body
  cr_not_mem : '\r' ∉ body
  scan?_eq : ∀ rest, scan? (body ++ '"' :: rest) = some (body, rest)
  decode?_eq : decode? body = some text.toList

variable {c e : Char} {rest : List Char}

theorem scan?_char (hquote : c ≠ '"') (hslash : c ≠ '\\') :
    scan? (c :: rest) = (scan? rest).map fun r => (c :: r.1, r.2) := by
  conv => lhs; rw [scan?.eq_def]
  split
  · next heq => cases heq
  · next heq => exact absurd (List.cons.inj heq).1 hquote
  · next heq => exact absurd (List.cons.inj heq).1 hslash
  · next heq =>
    cases heq
    rw [if_neg hslash]

theorem decode?_char (hslash : c ≠ '\\') : decode? (c :: rest) = (decode? rest).map (c :: ·) := by
  conv => lhs; rw [decode?.eq_def]
  split
  · next heq => cases heq
  · next heq => exact absurd (List.cons.inj heq).1 hslash
  · next heq =>
    cases heq
    rw [if_neg hslash]

theorem scan?_escapeChar (c : Char) (rest : List Char) :
    scan? (Script.escapeChar c ++ rest) = (scan? rest).map fun r => (Script.escapeChar c ++ r.1, r.2) := by
  rcases escapeChar_cases c with ⟨e, hescape, -⟩ | ⟨hescape, hquote, hslash, -⟩
  · rw [hescape, List.cons_append, List.singleton_append, scan?]
    rfl
  · rw [hescape]
    exact scan?_char hquote hslash

theorem decode?_escapeChar (c : Char) (rest : List Char) :
    decode? (Script.escapeChar c ++ rest) = (decode? rest).map (c :: ·) := by
  rcases escapeChar_cases c with ⟨e, hescape, hunescape, -⟩ | ⟨hescape, -, hslash, -⟩
  · rw [hescape, List.cons_append, List.singleton_append, decode?, hunescape]
  · rw [hescape]
    exact decode?_char hslash

theorem scan?_flatMap_escapeChar (cs rest : List Char) :
    scan? (cs.flatMap Script.escapeChar ++ '"' :: rest) = some (cs.flatMap Script.escapeChar, rest) := by
  induction cs with
  | nil => rfl
  | cons c cs ih =>
    rw [List.flatMap_cons, List.append_assoc, scan?_escapeChar, ih]
    rfl

theorem decode?_flatMap_escapeChar (cs : List Char) : decode? (cs.flatMap Script.escapeChar) = some cs := by
  induction cs with
  | nil => rfl
  | cons c cs ih =>
    rw [List.flatMap_cons, decode?_escapeChar, ih]
    rfl

/-- No line ends inside a quoted text. -/
theorem ne_of_mem_flatMap_escapeChar {cs : List Char} {d : Char} (h : d ∈ cs.flatMap Script.escapeChar) :
    d ≠ '\n' ∧ d ≠ '\r' := by
  obtain ⟨c, -, hd⟩ := List.mem_flatMap.mp h
  rcases escapeChar_cases c with ⟨e, hescape, -, hline⟩ | ⟨hescape, -, -, hline⟩
  · rw [hescape, List.mem_cons, List.mem_singleton] at hd
    rcases hd with rfl | rfl
    · decide
    · exact hline
  · rw [hescape, List.mem_singleton] at hd
    rw [hd]
    exact hline

theorem spells_quote (s : String) : Spells (Script.quote s) s (s.toList.flatMap Script.escapeChar) where
  quoted := toList_quote s
  lf_not_mem := fun h => (ne_of_mem_flatMap_escapeChar h).1 rfl
  cr_not_mem := fun h => (ne_of_mem_flatMap_escapeChar h).2 rfl
  scan?_eq := scan?_flatMap_escapeChar s.toList
  decode?_eq := decode?_flatMap_escapeChar s.toList

/-- A string spells one text only. -/
theorem Spells.unique {literal s t : String} {body body' : List Char} (hs : Spells literal s body)
    (ht : Spells literal t body') : s = t := by
  have hquoted := hs.quoted.symm.trans ht.quoted
  have hbody : body = body' := List.append_cancel_right (List.cons.inj hquoted).2
  have hdecode := hs.decode?_eq.symm.trans (hbody ▸ ht.decode?_eq)
  exact String.toList_inj.mp (Option.some.inj hdecode)

/-! ### One character after another -/

def replaceAll (cs : List Char) (c : Char) (escape : List Char) : List Char :=
  cs.flatMap fun d => if d = c then escape else [d]

/-- The characters that are escaped, in an order in which they can be replaced one after another. -/
def replacements : List (Char × List Char) :=
  [('\\', ['\\', '\\']), ('"', ['\\', '"']), ('\n', ['\\', 'n']), ('\r', ['\\', 'r']), ('\t', ['\\', 't'])]

theorem flatMap_escapeChar_eq_foldl (cs : List Char) :
    cs.flatMap Script.escapeChar = replacements.foldl (fun cs r => replaceAll cs r.1 r.2) cs := by
  simp only [replacements, List.foldl_cons, List.foldl_nil, replaceAll, List.flatMap_assoc]
  congr 1
  funext c
  -- the escape of a character has nothing that a later replacement looks for
  by_cases hslash : c = '\\'
  · subst hslash
    decide
  by_cases hquote : c = '"'
  · subst hquote
    decide
  by_cases hlf : c = '\n'
  · subst hlf
    decide
  by_cases hcr : c = '\r'
  · subst hcr
    decide
  by_cases htab : c = '\t'
  · subst htab
    decide
  · simp [Script.escapeChar, hslash, hquote, hlf, hcr, htab]

end StringLiteral

open StringLiteral

theorem Script.interpolate_eq_quote {raw : String} (h : ¬Part.HasToken raw) : interpolate raw = quote raw := by
  rcases Expr.ofText_cases raw with ⟨-, hraw⟩ | ⟨r, hname, rfl, -⟩ | ⟨htoken, -⟩
  · rw [interpolate, hraw, value, literal]
  · exact absurd ⟨r, hname, List.infix_refl _⟩ h
  · exact absurd htoken h

/-- A quoted text is a string that spells the text, so neither the literals of a script nor the expressions for texts
without tokens lose anything.  The escapes are those that five replacements make one after another. -/
theorem quoted_text_spells :
    (∀ s, ∃ body, Spells (Script.quote s) s body ∧
      body = replacements.foldl (fun cs r => replaceAll cs r.1 r.2) s.toList) ∧
    (∀ s, ∃ body, Spells (Script.literal (.str s)) s body) ∧
    (∀ raw, ¬Part.HasToken raw → ∃ body, Spells (Script.interpolate raw) raw body) ∧
    (∀ s t, Script.literal (.str s) = Script.literal (.str t) → s = t) ∧
    ∀ s t, ¬Part.HasToken s → ¬Part.HasToken t → Script.interpolate s = Script.interpolate t → s = t := by
  have hquote : ∀ s, ∃ body, Spells (Script.quote s) s body := fun s => ⟨_, spells_quote s⟩
  have hinterpolate : ∀ raw, ¬Part.HasToken raw → ∃ body, Spells (Script.interpolate raw) raw body := by
    intro raw hraw
    rw [Script.interpolate_eq_quote hraw]
    exact hquote raw
  refine ⟨?_, hquote, hinterpolate, ?_, ?_⟩
  · intro s
    exact ⟨_, spells_quote s, flatMap_escapeChar_eq_foldl s.toList⟩
  · intro s t h
    have hst : Script.quote s = Script.quote t := h
    exact (spells_quote s).unique (hst ▸ spells_quote t)
  · intro s t hs ht h
    obtain ⟨body, hbody⟩ := hinterpolate s hs
    obtain ⟨body', hbody'⟩ := hinterpolate t ht
    exact hbody.unique (h ▸ hbody')

/-- A text that looks escaped already, and ends in a backslash. -/
theorem quoted_text_spells_backslashes :
    Script.quote "\\n\n\"\\" = "\"\\\\n\\n\\\"\\\\\"" ∧
    ¬Part.HasToken "\\n\n\"\\" ∧
    ∃ body, Spells (Script.interpolate "\\n\n\"\\") "\\n\n\"\\" body := by
  have htoken : ¬Part.HasToken "\\n\n\"\\" := by
    rintro ⟨r, -, htoken⟩
    have hmem : '$' ∈ "\\n\n\"\\".toList := by
      apply htoken.subset
      rw [Reference.token_eq]
      exact List.mem_cons_self
    exact absurd hmem (by decide)
  exact ⟨by decide, htoken, quoted_text_spells.2.2.1 _ htoken⟩

end FlowScript
