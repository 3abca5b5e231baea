import FlowScript.Proofs.HeaderComments
import FlowScript.Proofs.TemplateLiteral

/-!
# What a template says at run time

When a script runs, the texts of a template are not what stands in the script.  The escapes are undone, a backslash at
the end of a line joins it with the next line, and a line that ends with CR or CR LF ends with LF instead.
`TemplateLiteral.cook?` does this to the texts of a template, once it is cut at its holes.

`CutAtTokens` says what a text has before, between and after its tokens.  A template says just that, except that its
line ends are made line feeds (`cook?_interpolate`): so the texts are kept iff the text has no carriage return.
-/

namespace FlowScript

/-- A text with line feeds for line ends: a carriage return before a line feed is dropped, any other becomes one. -/
def lineFeeds : List Char → List Char
  | [] => []
  | c :: rest =>
    if c = '\r' then
      if rest.head? = some '\n' then lineFeeds rest else '\n' :: lineFeeds rest
    else c :: lineFeeds rest

theorem return_not_mem_lineFeeds (l : List Char) : '\r' ∉ lineFeeds l := by
  fun_induction lineFeeds l with
  | case1 => simp
  | case2 rest h ih => exact ih
  | case3 rest h ih => simp [ih]
  | case4 c rest h ih => simp [ih, Ne.symm h]

theorem lineFeeds_eq_self {l : List Char} : lineFeeds l = l ↔ '\r' ∉ l := by
  constructor
  · intro h
    rw [← h]
    exact return_not_mem_lineFeeds l
  · intro h
    induction l with
    | nil => rfl
    | cons c l ih =>
      rw [List.mem_cons, not_or] at h
      rw [lineFeeds, if_neg (Ne.symm h.1), ih h.2]

namespace TemplateLiteral

/-- What an escape stands for.  Escapes by number are not read. -/
def unescape? (c : Char) : Option Char :=
  if c = 'n' then some '\n'
  else if c = 'r' then some '\r'
  else if c = 't' then some '\t'
  else if c = 'b' then some '\x08'
  else if c = 'v' then some '\x0b'
  else if c = 'f' then some '\x0c'
  else if c.isDigit ∨ c = 'x' ∨ c = 'u' then none
  else some c

/-- What is said by text as it is written in a template. -/
def cookChars? : List Char → Option (List Char)
  | [] => some []
  | '\\' :: '\r' :: '\n' :: rest => cookChars? rest
  | '\\' :: c :: rest =>
    if isLineTerminator c then cookChars? rest
    else match unescape? c with
      | some d => (cookChars? rest).map (d :: ·)
      | none => none
  | '\r' :: rest => if rest.head? = some '\n' then cookChars? rest else (cookChars? rest).map ('\n' :: ·)
  | c :: rest => (cookChars? rest).map (c :: ·)

/-- The template at the front of a text, as it is at run time, and what follows it. -/
def cook? (cs : List Char) : Option (TemplateLiteral × List Char) := do
  let (t, rest) ← raw? cs
  let texts ← t.texts.mapM fun s => (cookChars? s.toList).map String.ofList
  return (⟨texts, t.holes⟩, rest)

/-! ### Escaped text -/

variable {rest : List Char} {c d : Char}

theorem cookChars?_escape (hline : isLineTerminator c = false) (h : unescape? c = some d) :
    cookChars? ('\\' :: c :: rest) = (cookChars? rest).map (d :: ·) := by
  rw [cookChars?]
  · simp [hline, h]
  · rintro rest' rfl -
    cases hline

/-- A character that is not special stands for itself. -/
theorem cookChars?_char (hslash : c ≠ '\\') (hreturn : c ≠ '\r') :
    cookChars? (c :: rest) = (cookChars? rest).map (c :: ·) := by
  conv => lhs; rw [cookChars?.eq_def]
  split
  · next heq => cases heq
  · next heq => exact absurd (List.cons.inj heq).1 hslash
  · next heq => exact absurd (List.cons.inj heq).1 hslash
  · next heq => exact absurd (List.cons.inj heq).1 hreturn
  · next heq =>
    cases heq
    rfl

/-- Escaped text says the text with line feeds for line ends. -/
theorem cookChars?_escapeTemplate (l : List Char) : cookChars? (Script.escapeTemplate l) = some (lineFeeds l) := by
  induction l using escapeTemplate_induction with
  | nil => rfl
  | opening r ih =>
    rw [Script.escapeTemplate, cookChars?_escape (d := '$') (by decide) (by decide),
      cookChars?_char (by decide) (by decide), ih]
    simp [lineFeeds]
  | mark c r hc hescape ih =>
    have hself : isLineTerminator c = false ∧ unescape? c = some c ∧ c ≠ '\r' := by
      rcases hc with rfl | rfl <;> decide
    obtain ⟨hline, hself, hreturn⟩ := hself
    rw [hescape, cookChars?_escape hline hself, ih, lineFeeds, if_neg hreturn, Option.map_some]
  | plain c r hc hopen hescape ih =>
    rw [hescape]
    by_cases hreturn : c = '\r'
    · -- a line feed after the carriage return is there before and after escaping
      subst hreturn
      simp only [cookChars?, head?_escapeTemplate (c := '\n') (by decide), ih, lineFeeds, if_true]
      split <;> rfl
    · rw [cookChars?_char (not_or.mp hc).1 hreturn, ih, lineFeeds, if_neg hreturn, Option.map_some]

/-- What a text of a workflow says in a template. -/
def cooked (s : String) : String := String.ofList (lineFeeds s.toList)

theorem cooked_eq_self {s : String} : cooked s = s ↔ '\r' ∉ s.toList := by
  rw [cooked, ← String.toList_inj, String.toList_ofList, lineFeeds_eq_self]

variable {texts holes : List String} {ps : List Part}

/-- A template says the texts that it was written from, with line feeds for line ends. -/
theorem cook?_template (h : parts? texts holes = some ps) (rest : List Char) :
    cook? ((Script.template ps).toList ++ rest) = some (⟨texts.map cooked, holes⟩, rest) := by
  have hcook : ∀ s, (cookChars? (written s).toList).map String.ofList = pure (cooked s) := by
    intro s
    rw [written, String.toList_ofList, cookChars?_escapeTemplate]
    rfl
  have htexts : (texts.map written).mapM (fun s => (cookChars? s.toList).map String.ofList) =
      some (texts.map cooked) := by
    simp only [List.mapM_map, Function.comp_def, hcook, List.mapM_pure]
    rfl
  simp [cook?, raw?_template h, htexts]

theorem toList_render_of_parts? (h : parts? texts holes = some ps) :
    (Part.render ps).toList = weave String.toList texts holes := by
  rw [Part.toList_render]
  exact flatMap_of_parts? rfl (fun s => rfl) Reference.token_eq h

/-- Texts without tokens, with tokens between them, are canonical parts. -/
theorem exists_parts? (hlength : texts.length = holes.length + 1) (hplain : ∀ s ∈ texts, ¬ Part.HasToken s)
    (hholes : ∀ hole ∈ holes, ∃ r : Reference, IsName r.identifier ∧ hole = r.text) :
    ∃ ps, parts? texts holes = some ps ∧ Part.Canonical ps := by
  have hliteral : ∀ (s : String) (ps : List Part), ¬ Part.HasToken s → Part.Canonical ps →
      (∀ t, ps.head? ≠ some (.lit t)) → Part.Canonical (Part.literal? s.toList ++ ps) := by
    intro s ps hs hps hhead
    by_cases hempty : s = ""
    · subst hempty
      exact hps
    · rw [Part.literal?_toList hempty]
      exact Part.canonical_lit_cons.mpr ⟨hempty, hs, hhead, hps⟩
  induction holes generalizing texts with
  | nil =>
    obtain ⟨s, rfl⟩ := List.length_eq_one_iff.mp hlength
    refine ⟨Part.literal? s.toList, rfl, ?_⟩
    rw [← List.append_nil (Part.literal? s.toList)]
    exact hliteral s [] (hplain s List.mem_cons_self) Part.canonical_nil (by simp)
  | cons hole holes ih =>
    obtain ⟨s, texts, rfl⟩ := List.exists_cons_of_length_eq_add_one hlength
    rw [List.forall_mem_cons] at hplain hholes
    obtain ⟨⟨r, hname, rfl⟩, hholes⟩ := hholes
    obtain ⟨ps, hps, hcanon⟩ := ih (by simpa using hlength) hplain.2 hholes
    refine ⟨_, parts?_cons_eq_some.mpr ⟨r, ps, hname, rfl, hps, rfl⟩, ?_⟩
    exact hliteral s _ hplain.1 (Part.canonical_var_cons.mpr ⟨hname, hcanon⟩) (by simp)

end TemplateLiteral

open TemplateLiteral

/-- A text cut at its tokens: what stands before, between and after them, and what they name. -/
structure CutAtTokens (raw : String) (t : TemplateLiteral) : Prop where
  woven : weave String.toList t.texts t.holes = raw.toList
  length_texts : t.texts.length = t.holes.length + 1
  plain : ∀ s ∈ t.texts, ¬ Part.HasToken s
  named : ∀ hole ∈ t.holes, ∃ r : Reference, IsName r.identifier ∧ hole = r.text

theorem Reference.return_not_mem_text {r : Reference} (h : IsName r.identifier) : '\r' ∉ r.text.toList := by
  have hscope : '\r' ∉ r.scope.name.toList := by
    cases r.scope <;> decide
  have hname : '\r' ∉ r.identifier.toList := fun hmem => absurd (h.isIdentifierChar_of_mem hmem) (by decide)
  simp [Reference.text_eq, hscope, hname]

theorem Part.not_hasToken_of_mem_texts {ps : List Part} (h : Canonical ps) {s : String} (hs : s ∈ texts ps) :
    ¬ HasToken s := by
  have hempty : ¬ HasToken "" := by
    rintro ⟨r, -, htoken⟩
    simp [Reference.token_eq] at htoken
  induction ps using texts.induct with
  | case1 =>
    obtain rfl := List.mem_singleton.mp hs
    exact hempty
  | case2 r ps ih =>
    rcases List.mem_cons.mp hs with rfl | hs
    · exact hempty
    · exact ih h.tail hs
  | case3 t =>
    obtain rfl := List.mem_singleton.mp hs
    exact (canonical_lit_cons.mp h).2.1
  | case4 t q ps ih =>
    rcases List.mem_cons.mp hs with rfl | hs
    · exact (canonical_lit_cons.mp h).2.1
    · exact ih h.tail.tail hs

theorem cutAtTokens_split (raw : String) :
    CutAtTokens raw ⟨Part.texts (Part.split raw), Part.names (Part.split raw)⟩ := by
  have hcanon := Part.canonical_split raw
  have hparts := Part.parts?_texts hcanon
  obtain ⟨hlength, hholes⟩ := shape_of_parts? hparts
  refine ⟨?_, hlength, fun s hs => Part.not_hasToken_of_mem_texts hcanon hs, hholes⟩
  rw [← toList_render_of_parts? hparts, Part.render_split]

namespace CutAtTokens

variable {raw : String} {t : TemplateLiteral}

/-- The parts of a text are the only way to cut it. -/
theorem parts?_eq (h : CutAtTokens raw t) : parts? t.texts t.holes = some (Part.split raw) := by
  obtain ⟨ps, hps, hcanon⟩ := exists_parts? h.length_texts h.plain h.named
  have hrender : Part.render ps = raw := by
    rw [← String.toList_inj, toList_render_of_parts? hps, h.woven]
  rw [hps, ← hrender, Part.split_render hcanon]

/-- A template made from the text says what stands between the tokens, with line feeds for line ends. -/
theorem cook?_template_split (h : CutAtTokens raw t) :
    cook? (Script.template (Part.split raw)).toList = some (⟨t.texts.map cooked, t.holes⟩, []) := by
  rw [← List.append_nil (Script.template (Part.split raw)).toList]
  exact cook?_template h.parts?_eq []

/-- A carriage return of the text stands between its tokens. -/
theorem return_mem_iff (h : CutAtTokens raw t) : '\r' ∈ raw.toList ↔ ∃ s ∈ t.texts, '\r' ∈ s.toList := by
  obtain ⟨texts, holes⟩ := t
  obtain ⟨hwoven, hlength, -, hnamed⟩ := h
  have hholes : ∀ hole ∈ holes, '\r' ∉ hole.toList := by
    intro hole hhole hmem
    obtain ⟨r, hname, rfl⟩ := hnamed hole hhole
    exact Reference.return_not_mem_text hname hmem
  rw [← hwoven]
  clear hwoven hnamed
  induction holes generalizing texts with
  | nil =>
    obtain ⟨s, rfl⟩ := List.length_eq_one_iff.mp hlength
    simp [weave]
  | cons hole holes ih =>
    obtain ⟨s, texts, rfl⟩ := List.exists_cons_of_length_eq_add_one hlength
    rw [List.forall_mem_cons] at hholes
    have ih := ih texts (by simpa using hlength) hholes.2
    simp [weave, hholes.1, ih]

theorem map_cooked_eq_iff (h : CutAtTokens raw t) : t.texts.map cooked = t.texts ↔ '\r' ∉ raw.toList := by
  have hself : t.texts.map cooked = t.texts ↔ ∀ s ∈ t.texts, cooked s = s := by
    conv => lhs; rhs; rw [← List.map_id t.texts]
    exact List.map_inj_left
  rw [h.return_mem_iff, hself]
  simp [cooked_eq_self]

end CutAtTokens

/-- Where a text has a token and something else, the template that is written for it has the tokens in its holes, and
says between them what the text has there, with line feeds for line ends.  So it says exactly what the text has iff the
text has no carriage return. -/
theorem cook?_interpolate {raw : String} (htoken : Part.HasToken raw)
    (hother : ∀ r : Reference, IsName r.identifier → raw ≠ (Part.var r).source) :
    (∃ t, CutAtTokens raw t) ∧
      ∀ t, CutAtTokens raw t →
        cook? (Script.interpolate raw).toList = some (⟨t.texts.map cooked, t.holes⟩, []) ∧
          (t.texts.map cooked = t.texts ↔ '\r' ∉ raw.toList) := by
  have htemplate : Expr.ofText raw = .template (Part.split raw) := by
    rcases Expr.ofText_cases raw with ⟨hno, -⟩ | ⟨r, hname, hraw, -⟩ | ⟨-, -, htext, -⟩
    · exact absurd htoken hno
    · exact absurd hraw (hother r hname)
    · exact htext
  refine ⟨⟨_, cutAtTokens_split raw⟩, ?_⟩
  intro t ht
  refine ⟨?_, ht.map_cooked_eq_iff⟩
  rw [Script.interpolate, htemplate, Script.value]
  exact ht.cook?_template_split

/-- Two line ends, a backslash and a backtick around a token. -/
def lineEnds : String := "a\r\nb\r$\x7binput.x\x7d\n\\\x60"

theorem cook?_interpolate_lineEnds :
    Part.HasToken lineEnds ∧ CutAtTokens lineEnds ⟨["a\r\nb\r", "\n\\\x60"], ["input.x"]⟩ ∧
      cook? (Script.interpolate lineEnds).toList = some (⟨["a\nb\n", "\n\\\x60"], ["input.x"]⟩, []) := by
  have hsplit : Part.split lineEnds = [.lit "a\r\nb\r", .var ⟨.input, "x"⟩, .lit "\n\\\x60"] := by cbv
  have htoken : Part.HasToken lineEnds := Expr.hasToken_of_mem_split (r := ⟨.input, "x"⟩) (by simp [hsplit])
  have hother : ∀ r : Reference, IsName r.identifier → lineEnds ≠ (Part.var r).source := by
    intro r hname heq
    rw [heq, Expr.split_source hname] at hsplit
    cases hsplit
  have hcut := cutAtTokens_split lineEnds
  rw [hsplit] at hcut
  exact ⟨htoken, hcut, ((cook?_interpolate htoken hother).2 _ hcut).1⟩

/-- A template does not keep a carriage return that stands alone. -/
theorem cook?_interpolate_ne_return :
    CutAtTokens "a\rb$\x7binput.x\x7d" ⟨["a\rb", ""], ["input.x"]⟩ ∧
      cook? (Script.interpolate "a\rb$\x7binput.x\x7d").toList = some (⟨["a\nb", ""], ["input.x"]⟩, []) ∧
      "a\nb" ≠ "a\rb" := by
  have hsplit : Part.split "a\rb$\x7binput.x\x7d" = [.lit "a\rb", .var ⟨.input, "x"⟩] := by cbv
  have hcut := cutAtTokens_split "a\rb$\x7binput.x\x7d"
  have htext : Script.interpolate "a\rb$\x7binput.x\x7d" = Script.template (Part.split "a\rb$\x7binput.x\x7d") := by
    rw [Script.interpolate, Expr.ofText, hsplit, Script.value]
  rw [hsplit] at hcut
  exact ⟨hcut, by rw [htext]; exact hcut.cook?_template_split, by decide⟩

end FlowScript
