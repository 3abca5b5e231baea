import FlowScript.Proofs.QuotedText

/-!
# Reading template literals

A template ends at a backtick.  In it, an opening brace after a dollar sign begins a hole that ends at the next closing
brace, and a backslash takes the next character with it.  `TemplateLiteral.raw?` cuts a template at its holes and leaves
the texts between them as they are written; `TemplateLiteral.read?` takes away the backslashes that escape.  Whatever a
template was written from is found again: the references in the holes, and the literal text between them.

The escapes can also be written by three replacements in the whole text, one after another, as long as the backslash
comes first (`TemplateLiteral.escapeTemplate_eq_foldl`).
-/

namespace FlowScript

/-- What a script sees in a template: the texts before, between and after its holes, and the holes. -/
structure TemplateLiteral where
  texts : List String
  holes : List String
deriving DecidableEq

namespace TemplateLiteral

/-- A text and a hole before what was read. -/
def push (text hole : String) (t : TemplateLiteral) : TemplateLiteral := ⟨text :: t.texts, hole :: t.holes⟩

mutual

/-- Reads to the end of a template; `text` is what was read since the last hole, in reverse and with its escapes.  What
follows the template is returned with it. -/
def rawText? (text : List Char) : List Char → Option (TemplateLiteral × List Char)
  | [] => none
  | '\x60' :: rest => some (⟨[String.ofList text.reverse], []⟩, rest)
  | '\\' :: c :: rest => rawText? (c :: '\\' :: text) rest
  | '$' :: '\x7b' :: rest => rawHole? text [] rest
  | c :: rest => rawText? (c :: text) rest

/-- Reads from inside a hole; `hole` is what the hole holds so far, in reverse. -/
def rawHole? (text hole : List Char) : List Char → Option (TemplateLiteral × List Char)
  | [] => none
  | c :: rest =>
    if c = '\x7d' then
      (rawText? [] rest).map fun p => (p.1.push (String.ofList text.reverse) (String.ofList hole.reverse), p.2)
    else rawHole? text (c :: hole) rest

end

/-- The template at the front of a text, with its texts as they are written, and what follows it. -/
def raw? : List Char → Option (TemplateLiteral × List Char)
  | '\x60' :: rest => rawText? [] rest
  | _ => none

/-- Text without the backslashes that escape: each takes the next character as it is. -/
def unescaped : List Char → List Char
  | [] => []
  | '\\' :: c :: rest => c :: unescaped rest
  | c :: rest => c :: unescaped rest

/-- The template at the front of a text, and what follows it. -/
def read? (cs : List Char) : Option (TemplateLiteral × List Char) :=
  (raw? cs).map fun p => (⟨p.1.texts.map fun s => String.ofList (unescaped s.toList), p.1.holes⟩, p.2)

/-- Holes that hold references, and the texts around them, as parts. -/
def parts? : (texts holes : List String) → Option (List Part)
  | [s], [] => some (Part.literal? s.toList)
  | s :: texts, hole :: holes => do
    let r ← Reference.ofInner? hole.toList
    let ps ← parts? texts holes
    return Part.literal? s.toList ++ .var r :: ps
  | _, _ => none

/-! ### Steps of the reader -/

variable {text rest : List Char} {c : Char}

theorem rawText?_end : rawText? text ('\x60' :: rest) = some (⟨[String.ofList text.reverse], []⟩, rest) := by
  rw [rawText?]

theorem rawText?_escape : rawText? text ('\\' :: c :: rest) = rawText? (c :: '\\' :: text) rest := by
  rw [rawText?]

/-- A character that is not special stands for itself. -/
theorem rawText?_char (htick : c ≠ '\x60') (hslash : c ≠ '\\') (hhole : c = '$' → rest.head? ≠ some '\x7b') :
    rawText? text (c :: rest) = rawText? (c :: text) rest := by
  conv => lhs; rw [rawText?.eq_def]
  split
  · next heq => cases heq
  · next heq => exact absurd (List.cons.inj heq).1 htick
  · next heq => exact absurd (List.cons.inj heq).1 hslash
  · next heq =>
    obtain ⟨hc, rfl⟩ := List.cons.inj heq
    exact absurd rfl (hhole hc)
  · next heq =>
    cases heq
    rfl

private theorem rawHole?_append {hole inner : List Char} (h : '\x7d' ∉ inner) :
    rawHole? text hole (inner ++ '\x7d' :: rest) =
      (rawText? [] rest).map fun p =>
        (p.1.push (String.ofList text.reverse) (String.ofList (hole.reverse ++ inner)), p.2) := by
  induction inner generalizing hole with
  | nil => simp [rawHole?]
  | cons c inner ih =>
    simp only [List.mem_cons, not_or] at h
    rw [List.cons_append, rawHole?, if_neg (Ne.symm h.1), ih h.2, List.reverse_cons, List.append_assoc,
      List.singleton_append]

/-- A hole ends at the first closing brace. -/
theorem rawText?_hole {inner : List Char} (h : '\x7d' ∉ inner) :
    rawText? text ('$' :: '\x7b' :: (inner ++ '\x7d' :: rest)) =
      (rawText? [] rest).map fun p => (p.1.push (String.ofList text.reverse) (String.ofList inner), p.2) := by
  rw [rawText?, rawHole?_append h, List.reverse_nil, List.nil_append]

/-! ### Escaped text -/

/-- Text by what is written for it in a template: it begins with the opening of a hole, with a backslash or a backtick,
or with a character that is written as it is. -/
theorem escapeTemplate_induction {motive : List Char → Prop} (nil : motive [])
    (opening : ∀ r, motive r → motive ('$' :: '\x7b' :: r))
    (mark : ∀ c r, c = '\\' ∨ c = Script.backtick →
      Script.escapeTemplate (c :: r) = '\\' :: c :: Script.escapeTemplate r → motive r → motive (c :: r))
    (plain : ∀ c r, ¬ (c = '\\' ∨ c = Script.backtick) → (c = '$' → r.head? ≠ some '\x7b') →
      Script.escapeTemplate (c :: r) = c :: Script.escapeTemplate r → motive r → motive (c :: r))
    (l : List Char) : motive l := by
  induction l using Script.escapeTemplate.induct with
  | case1 => exact nil
  | case2 r ih => exact opening r ih
  | case3 c r hopen hc ih =>
    refine mark c r hc ?_ ih
    rw [Script.escapeTemplate, if_pos hc]
    exact hopen
  | case4 c r hopen hc ih =>
    refine plain c r hc ?_ ?_ ih
    · rintro rfl hhead
      obtain ⟨r, rfl⟩ := List.head?_eq_some_iff.mp hhead
      exact hopen r rfl rfl
    · rw [Script.escapeTemplate, if_neg hc]
      exact hopen

/-- Escaping does not change which character stands first, unless it is one that is escaped. -/
theorem head?_escapeTemplate {l : List Char} (hc : c ≠ '\\' ∧ c ≠ '\x60' ∧ c ≠ '$') :
    (Script.escapeTemplate l).head? = some c ↔ l.head? = some c := by
  obtain ⟨hslash, htick, hdollar⟩ := hc
  unfold Script.escapeTemplate
  split
  · rfl
  · simp [Ne.symm hslash, Ne.symm hdollar]
  · split
    · next h =>
      have hne : ∀ d, d = '\\' ∨ d = Script.backtick → d ≠ c := by
        rintro d (rfl | rfl)
        · exact Ne.symm hslash
        · exact Ne.symm htick
      simp [hne _ h, Ne.symm hslash]
    · rfl

/-- Escaped text is read to its end, whatever was read before it.  Only a brace after it could change that: it would
open a hole after a dollar sign at the end of the text. -/
theorem rawText?_escapeTemplate {l : List Char} (hrest : rest.head? ≠ some '\x7b') :
    rawText? text (Script.escapeTemplate l ++ rest) = rawText? ((Script.escapeTemplate l).reverse ++ text) rest := by
  induction l using escapeTemplate_induction generalizing text with
  | nil => rfl
  | opening r ih =>
    rw [Script.escapeTemplate, List.cons_append, List.cons_append, List.cons_append, rawText?_escape,
      rawText?_char (by decide) (by decide) (by simp), ih]
    simp
  | mark c r hc hescape ih =>
    rw [hescape, List.cons_append, List.cons_append, rawText?_escape, ih]
    simp
  | plain c r hc hopen hescape ih =>
    rw [not_or] at hc
    rw [hescape, List.cons_append, rawText?_char hc.2 hc.1, ih]
    · simp
    · -- a brace that follows a dollar sign would stand in the text, or after it
      intro hdollar
      have hr := mt (head?_escapeTemplate (by decide)).mp (hopen hdollar)
      rw [List.head?_append]
      cases he : (Script.escapeTemplate r).head? with
      | none => simpa using hrest
      | some d => simpa [he] using hr

theorem unescaped_char (hslash : c ≠ '\\') : unescaped (c :: rest) = c :: unescaped rest := by
  rw [unescaped]
  rintro - - rfl
  exact absurd rfl hslash

theorem unescaped_escapeTemplate (l : List Char) : unescaped (Script.escapeTemplate l) = l := by
  induction l using escapeTemplate_induction with
  | nil => rfl
  | opening r ih => rw [Script.escapeTemplate, unescaped, unescaped_char (by decide), ih]
  | mark c r hc hescape ih => rw [hescape, unescaped, ih]
  | plain c r hc hopen hescape ih => rw [hescape, unescaped_char (not_or.mp hc).1, ih]

/-! ### One replacement after another -/

/-- Occurrences of a word replaced from left to right, after the first `skip` characters, which are left out. -/
def replaceAfter (word replacement : List Char) : (skip : Nat) → List Char → List Char
  | _, [] => []
  | skip + 1, _ :: rest => replaceAfter word replacement skip rest
  | 0, c :: rest =>
    if word <+: c :: rest then replacement ++ replaceAfter word replacement (word.length - 1) rest
    else c :: replaceAfter word replacement 0 rest

def replaceWord (word replacement cs : List Char) : List Char := replaceAfter word replacement 0 cs

/-- What is escaped in a template, in an order in which it can be replaced one after another. -/
def replacements : List (List Char × List Char) :=
  [(['\\'], ['\\', '\\']), (['\x60'], ['\\', '\x60']), (['$', '\x7b'], ['\\', '$', '\x7b'])]

/-- How a character stands in a template once its backslashes and backticks are replaced. -/
def escapeMark (c : Char) : List Char := if c = '\\' ∨ c = Script.backtick then ['\\', c] else [c]

theorem replaceWord_cons {word replacement : List Char} (h : ¬ word <+: c :: rest) :
    replaceWord word replacement (c :: rest) = c :: replaceWord word replacement rest := by
  rw [replaceWord, replaceAfter, if_neg h, replaceWord]

/-- A word of one character. -/
theorem replaceWord_singleton (d : Char) (replacement cs : List Char) :
    replaceWord [d] replacement cs = StringLiteral.replaceAll cs d replacement := by
  rw [StringLiteral.replaceAll]
  induction cs with
  | nil => rfl
  | cons c cs ih =>
    by_cases hc : c = d
    · subst hc
      rw [replaceWord, replaceAfter, if_pos (by simp), List.flatMap_cons, if_pos rfl, ← ih]
      rfl
    · rw [replaceWord_cons (by simpa using Ne.symm hc), List.flatMap_cons, if_neg hc, ih, List.singleton_append]

theorem replaceWord_marks (cs : List Char) :
    replaceWord ['\x60'] ['\\', '\x60'] (replaceWord ['\\'] ['\\', '\\'] cs) = cs.flatMap escapeMark := by
  rw [replaceWord_singleton, replaceWord_singleton, StringLiteral.replaceAll, StringLiteral.replaceAll,
    List.flatMap_assoc]
  congr 1
  funext c
  by_cases hslash : c = '\\'
  · subst hslash
    decide
  by_cases htick : c = '\x60'
  · subst htick
    decide
  · simp [escapeMark, Script.backtick, hslash, htick]

/-- A brace stands first after the marks are replaced iff it did before. -/
theorem head?_flatMap_escapeMark (cs : List Char) :
    (cs.flatMap escapeMark).head? = some '\x7b' ↔ cs.head? = some '\x7b' := by
  cases cs with
  | nil => rfl
  | cons c cs =>
    rw [List.flatMap_cons, escapeMark]
    split
    · next h => rcases h with rfl | rfl <;> simp [Script.backtick]
    · rfl

theorem escapeTemplate_eq_foldl (cs : List Char) :
    Script.escapeTemplate cs = replacements.foldl (fun cs r => replaceWord r.1 r.2 cs) cs := by
  rw [replacements, List.foldl_cons, List.foldl_cons, List.foldl_cons, List.foldl_nil, replaceWord_marks]
  -- the escaped marks do not open a hole, and what opens a hole in the text still does
  induction cs using escapeTemplate_induction with
  | nil => rfl
  | opening r ih =>
    rw [Script.escapeTemplate, ih]
    rfl
  | mark c r hc hescape ih =>
    have hdollar : c ≠ '$' := by
      rcases hc with rfl | rfl <;> decide
    rw [hescape, List.flatMap_cons, escapeMark, if_pos hc, ih, List.cons_append, List.singleton_append,
      replaceWord_cons (by simp), replaceWord_cons (by simp [Ne.symm hdollar])]
  | plain c r hc hopen hescape ih =>
    rw [hescape, List.flatMap_cons, escapeMark, if_neg hc, ih, List.singleton_append, replaceWord_cons]
    rintro ⟨after, hafter⟩
    rw [List.cons_append, List.cons.injEq] at hafter
    obtain ⟨hdollar, hbrace⟩ := hafter
    refine hopen hdollar.symm ?_
    rw [← head?_flatMap_escapeMark, ← hbrace]
    rfl

/-! ### Texts between holes -/

/-- Texts with holes between them, written out; `write` says how a text is written. -/
def weave (write : String → List Char) : (texts holes : List String) → List Char
  | s :: texts, hole :: holes => write s ++ '$' :: '\x7b' :: (hole.toList ++ '\x7d' :: weave write texts holes)
  | s :: _, [] => write s
  | [], _ => []

/-- A text of a workflow as it is written in a template. -/
def written (s : String) : String := String.ofList (Script.escapeTemplate s.toList)

variable {texts holes : List String} {ps : List Part}

theorem rawText?_weave (hlength : texts.length = holes.length + 1) (hholes : ∀ hole ∈ holes, '\x7d' ∉ hole.toList)
    (rest : List Char) :
    rawText? [] (weave (fun s => Script.escapeTemplate s.toList) texts holes ++ '\x60' :: rest) =
      some (⟨texts.map written, holes⟩, rest) := by
  induction holes generalizing texts with
  | nil =>
    obtain ⟨s, rfl⟩ := List.length_eq_one_iff.mp hlength
    rw [weave, rawText?_escapeTemplate (by simp), rawText?_end, List.append_nil, List.reverse_reverse]
    rfl
  | cons hole holes ih =>
    obtain ⟨s, texts, rfl⟩ := List.exists_cons_of_length_eq_add_one hlength
    rw [List.forall_mem_cons] at hholes
    rw [weave, List.append_assoc, rawText?_escapeTemplate (by simp), List.cons_append, List.cons_append,
      List.append_assoc, List.cons_append, rawText?_hole hholes.1, ih (by simpa using hlength) hholes.2,
      List.append_nil, List.reverse_reverse, String.ofList_toList]
    rfl

theorem parts?_cons_eq_some {s hole : String} :
    parts? (s :: texts) (hole :: holes) = some ps ↔
      ∃ r qs, IsName r.identifier ∧ hole = r.text ∧ parts? texts holes = some qs ∧
        ps = Part.literal? s.toList ++ .var r :: qs := by
  simp only [parts?, Option.bind_eq_bind, Option.bind_eq_some_iff, Option.pure_def, Option.some.injEq,
    Reference.ofInner?_eq_some, String.toList_inj]
  constructor
  · rintro ⟨r, ⟨hname, hhole⟩, qs, hqs, rfl⟩
    exact ⟨r, qs, hname, hhole, hqs, rfl⟩
  · rintro ⟨r, qs, hname, hhole, hqs, rfl⟩
    exact ⟨r, ⟨hname, hhole⟩, qs, hqs, rfl⟩

/-- Parts written one after another are their texts with the holes between them. -/
theorem flatMap_of_parts? {write : String → List Char} {writePart : Part → List Char} (hempty : write "" = [])
    (hlit : ∀ s, writePart (.lit s) = write s)
    (hvar : ∀ r, writePart (.var r) = '$' :: '\x7b' :: (r.text.toList ++ ['\x7d']))
    (h : parts? texts holes = some ps) : ps.flatMap writePart = weave write texts holes := by
  have hliteral : ∀ s : String, (Part.literal? s.toList).flatMap writePart = write s := by
    intro s
    by_cases hs : s = ""
    · subst hs
      rw [hempty]
      rfl
    · rw [Part.literal?_toList hs, List.flatMap_singleton, hlit]
  induction texts, holes using parts?.induct generalizing ps with
  | case1 s =>
    cases h
    exact hliteral s
  | case2 s texts hole holes ih =>
    obtain ⟨r, qs, -, rfl, hqs, rfl⟩ := parts?_cons_eq_some.mp h
    rw [List.flatMap_append, List.flatMap_cons, hliteral, hvar, ih hqs, weave]
    simp
  | case3 texts holes hnil hcons => simp [parts?] at h

theorem shape_of_parts? (h : parts? texts holes = some ps) :
    texts.length = holes.length + 1 ∧ ∀ hole ∈ holes, ∃ r : Reference, IsName r.identifier ∧ hole = r.text := by
  induction texts, holes using parts?.induct generalizing ps with
  | case1 s => simp
  | case2 s texts hole holes ih =>
    obtain ⟨r, qs, hname, hhole, hqs, -⟩ := parts?_cons_eq_some.mp h
    obtain ⟨hlength, hholes⟩ := ih hqs
    exact ⟨by simp [hlength], List.forall_mem_cons.mpr ⟨⟨r, hname, hhole⟩, hholes⟩⟩
  | case3 texts holes hnil hcons => simp [parts?] at h

theorem toList_template (ps : List Part) :
    (Script.template ps).toList = '\x60' :: ((ps.flatMap fun p => (Script.part p).toList) ++ ['\x60']) := by
  simp [Script.template, List.flatMap_map]

theorem toList_template_of_parts? (h : parts? texts holes = some ps) :
    (Script.template ps).toList =
      '\x60' :: (weave (fun s => Script.escapeTemplate s.toList) texts holes ++ ['\x60']) := by
  have hlit : ∀ s, (Script.part (.lit s)).toList = Script.escapeTemplate s.toList := by
    intro s
    rw [Script.part, String.toList_ofList]
  have hvar : ∀ r, (Script.part (.var r)).toList = '$' :: '\x7b' :: (r.text.toList ++ ['\x7d']) := by
    intro r
    simp [Script.part]
  rw [toList_template, flatMap_of_parts? rfl hlit hvar h]

/-- A template is read as the texts it was written from, with their escapes, and the references between them. -/
theorem raw?_template (h : parts? texts holes = some ps) (rest : List Char) :
    raw? ((Script.template ps).toList ++ rest) = some (⟨texts.map written, holes⟩, rest) := by
  obtain ⟨hlength, hnamed⟩ := shape_of_parts? h
  have hholes : ∀ hole ∈ holes, '\x7d' ∉ hole.toList := by
    intro hole hhole hbrace
    obtain ⟨r, hname, rfl⟩ := hnamed hole hhole
    exact (Reference.char_ne hname hbrace).1 rfl
  rw [toList_template_of_parts? h, List.cons_append, List.append_assoc, List.singleton_append, raw?,
    rawText?_weave hlength hholes]

theorem read?_template (h : parts? texts holes = some ps) (rest : List Char) :
    read? ((Script.template ps).toList ++ rest) = some (⟨texts, holes⟩, rest) := by
  have hself : ∀ s, String.ofList (unescaped (written s).toList) = s := by
    intro s
    rw [written, String.toList_ofList, unescaped_escapeTemplate, String.ofList_toList]
  rw [read?, raw?_template h]
  simp [hself, Function.comp_def]

end TemplateLiteral

namespace Part

/-- The texts before, between and after the references of a canonical list: a literal part, or nothing where a
reference has no literal part beside it.  The part after a literal part is a reference. -/
def texts : List Part → List String
  | [] => [""]
  | var _ :: ps => "" :: texts ps
  | [lit s] => [s]
  | lit s :: _ :: ps => s :: texts ps

/-- The references, as a script names them. -/
def names : List Part → List String
  | [] => []
  | lit _ :: ps => names ps
  | var r :: ps => r.text :: names ps

open TemplateLiteral

/-- The parts are put together again from the texts and the references between them. -/
theorem parts?_texts {ps : List Part} (h : Canonical ps) : parts? (texts ps) (names ps) = some ps := by
  induction ps using texts.induct with
  | case1 => rfl
  | case2 r ps ih =>
    obtain ⟨hname, hps⟩ := canonical_var_cons.mp h
    rw [texts, names, parts?, Reference.ofInner?_eq_some.mpr ⟨hname, rfl⟩, ih hps]
    rfl
  | case3 s =>
    rw [texts, names, names, parts?, literal?_toList (canonical_lit_cons.mp h).1]
  | case4 s q ps ih =>
    obtain ⟨hne, -, hhead, hps⟩ := canonical_lit_cons.mp h
    cases q with
    | lit t => exact absurd rfl (hhead t)
    | var r =>
      obtain ⟨hname, hps⟩ := canonical_var_cons.mp hps
      rw [texts, names, names, parts?, Reference.ofInner?_eq_some.mpr ⟨hname, rfl⟩, ih hps, literal?_toList hne]
      rfl

end Part

/-- No literal text becomes code: what is written for a text that is a template is read, up to its last character, as
a template whose holes are the references and whose texts are the literal parts; so the parts are found again. -/
theorem read?_interpolate {raw : String} {ps : List Part} (h : Expr.ofText raw = .template ps) :
    TemplateLiteral.read? (Script.interpolate raw).toList = some (⟨Part.texts ps, Part.names ps⟩, []) ∧
      TemplateLiteral.parts? (Part.texts ps) (Part.names ps) = some ps := by
  have hcanon : Part.Canonical ps := by
    rw [Expr.eq_split_of_template h]
    exact Part.canonical_split raw
  have hparts := Part.parts?_texts hcanon
  refine ⟨?_, hparts⟩
  rw [Script.interpolate, h, Script.value, ← List.append_nil (Script.template ps).toList]
  exact TemplateLiteral.read?_template hparts []

/-- A backtick, a false opening and a backslash beside a reference. -/
theorem read?_interpolate_stray :
    Expr.ofText "`$\x7b$\x7binput.x\x7d\\$" = .template [.lit "`$\x7b", .var ⟨.input, "x"⟩, .lit "\\$"] ∧
      TemplateLiteral.read? (Script.interpolate "`$\x7b$\x7binput.x\x7d\\$").toList =
        some (⟨["`$\x7b", "\\$"], ["input.x"]⟩, []) ∧
      TemplateLiteral.parts? ["`$\x7b", "\\$"] ["input.x"] =
        some [.lit "`$\x7b", .var ⟨.input, "x"⟩, .lit "\\$"] := by
  have h : Expr.ofText "`$\x7b$\x7binput.x\x7d\\$" =
      .template [.lit "`$\x7b", .var ⟨.input, "x"⟩, .lit "\\$"] := by cbv
  exact ⟨h, read?_interpolate h⟩

end FlowScript
