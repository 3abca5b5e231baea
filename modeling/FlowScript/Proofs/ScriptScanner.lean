import FlowScript.Proofs.StringLiteral
import FlowScript.Proofs.TemplateLiteral
import FlowScript.Script.Layout

/-!
# Code and literals of a script

`scan?` reads a script from left to right as code and literals: double-quoted strings and templates are literals, and
every other character is code.  `Token.emptied` is the script with its literals emptied, that is, its code and the
places of the literals; `Token.literals` are the literals, decoded.

`Scans text frame ls` says that a part of a script is read, whatever follows it, as the code of `frame` with the
literals `ls` in it.  Parts that follow each other are read one after the other (`Scans.append`), and laying them out
in lines adds nothing but code (`Lays`).
-/

namespace FlowScript

inductive Literal where
  | quoted (text : String)
  | template (t : TemplateLiteral)
deriving DecidableEq

inductive Token where
  | code (c : Char)
  | literal (l : Literal)
deriving DecidableEq

namespace TemplateLiteral

mutual

/-- Reading a template takes something off the text. -/
theorem length_rawText? {text cs rest : List Char} {t : TemplateLiteral}
    (h : rawText? text cs = some (t, rest)) : rest.length < cs.length := by
  rw [rawText?.eq_def] at h
  split at h
  · cases h
  · cases h
    simp
  · have := length_rawText? h
    simp only [List.length_cons]
    omega
  · have := length_rawHole? h
    simp only [List.length_cons]
    omega
  · have := length_rawText? h
    simp only [List.length_cons]
    omega
termination_by cs.length

theorem length_rawHole? {text hole cs rest : List Char} {t : TemplateLiteral}
    (h : rawHole? text hole cs = some (t, rest)) : rest.length < cs.length := by
  rw [rawHole?.eq_def] at h
  split at h
  · cases h
  · split at h
    · obtain ⟨p, hp, heq⟩ := Option.map_eq_some_iff.mp h
      cases heq
      have := length_rawText? hp
      simp only [List.length_cons]
      omega
    · have := length_rawHole? h
      simp only [List.length_cons]
      omega
termination_by cs.length

end

theorem length_read? {cs rest : List Char} {t : TemplateLiteral} (h : read? cs = some (t, rest)) :
    rest.length < cs.length := by
  obtain ⟨p, hp, heq⟩ := Option.map_eq_some_iff.mp h
  cases heq
  unfold raw? at hp
  split at hp
  · exact Nat.lt_succ_of_lt (length_rawText? hp)
  · cases hp

end TemplateLiteral

namespace Literal

/-- How an emptied literal stands in a script. -/
def mark : String := "\"\""

/-- The characters that begin a literal. -/
def isOpening (c : Char) : Bool := c == '"' || c == Script.backtick

/-- The literal at the front of a text, and what follows it. -/
def read? : List Char → Option (Literal × List Char)
  | '"' :: cs => (StringLiteral.read? ('"' :: cs)).map fun p => (quoted p.1, p.2)
  | '\x60' :: cs => (TemplateLiteral.read? ('\x60' :: cs)).map fun p => (template p.1, p.2)
  | _ => none

theorem length_read? {cs rest : List Char} {l : Literal} (h : read? cs = some (l, rest)) :
    rest.length < cs.length := by
  unfold read? at h
  split at h
  · obtain ⟨p, hp, heq⟩ := Option.map_eq_some_iff.mp h
    cases heq
    exact Nat.lt_succ_of_lt (StringLiteral.length_readText? hp)
  · obtain ⟨p, hp, heq⟩ := Option.map_eq_some_iff.mp h
    cases heq
    exact TemplateLiteral.length_read? hp
  · cases h

theorem exists_opening_of_read? {cs rest : List Char} {l : Literal} (h : read? cs = some (l, rest)) :
    ∃ c tail, cs = c :: tail ∧ isOpening c = true := by
  unfold read? at h
  split at h
  · exact ⟨_, _, rfl, rfl⟩
  · exact ⟨_, _, rfl, rfl⟩
  · cases h

end Literal

/-- The code and the literals of a text; `none` if a literal is not ended. -/
def scan? : List Char → Option (List Token)
  | [] => some []
  | c :: cs =>
    if Literal.isOpening c then
      match h : Literal.read? (c :: cs) with
      | some (l, rest) =>
        have : rest.length < (c :: cs).length := Literal.length_read? h
        (scan? rest).map (.literal l :: ·)
      | none => none
    else (scan? cs).map (.code c :: ·)
termination_by cs => cs.length
decreasing_by
  · exact this
  · exact Nat.lt_succ_self cs.length

namespace Token

def emptied (ts : List Token) : String :=
  String.join (ts.map fun t => match t with
    | code c => String.singleton c
    | literal _ => Literal.mark)

def literals (ts : List Token) : List Literal :=
  ts.filterMap fun t => match t with
    | code _ => none
    | literal l => some l

theorem emptied_append (ts us : List Token) : emptied (ts ++ us) = emptied ts ++ emptied us := by
  rw [emptied, List.map_append, String.join_append]
  rfl

theorem literals_append (ts us : List Token) : literals (ts ++ us) = literals ts ++ literals us :=
  List.filterMap_append

end Token

/-! ### Steps of the scanner -/

theorem scan?_code {c : Char} (h : Literal.isOpening c = false) (cs : List Char) :
    scan? (c :: cs) = (scan? cs).map (.code c :: ·) := by
  rw [scan?, if_neg (by simp [h])]

theorem scan?_append_of_code {cs : List Char} (h : ∀ c ∈ cs, Literal.isOpening c = false) (rest : List Char) :
    scan? (cs ++ rest) = (scan? rest).map (cs.map .code ++ ·) := by
  induction cs with
  | nil => simp
  | cons c cs ih =>
    rw [List.forall_mem_cons] at h
    rw [List.cons_append, scan?_code h.1, ih h.2, Option.map_map]
    rfl

theorem scan?_of_read? {cs rest : List Char} {l : Literal} (h : Literal.read? cs = some (l, rest)) :
    scan? cs = (scan? rest).map (.literal l :: ·) := by
  obtain ⟨c, tail, rfl, hc⟩ := Literal.exists_opening_of_read? h
  rw [scan?, if_pos hc]
  split
  · next heq =>
    rw [h] at heq
    cases heq
    rfl
  · next heq =>
    rw [h] at heq
    cases heq

/-- Only the empty text has no tokens. -/
theorem eq_nil_of_scan? {cs : List Char} (h : scan? cs = some []) : cs = [] := by
  cases cs with
  | nil => rfl
  | cons c cs =>
    rw [scan?] at h
    split at h
    · split at h <;> simp at h
    · simp at h

/-! ### Parts of a script -/

/-- Text that no literal begins in. -/
def Plain (text : String) : Prop := '"' ∉ text.toList ∧ '\x60' ∉ text.toList

instance (text : String) : Decidable (Plain text) := inferInstanceAs (Decidable (_ ∧ _))

namespace Plain

theorem not_isOpening {text : String} (h : Plain text) : ∀ c ∈ text.toList, Literal.isOpening c = false := by
  intro c hc
  rw [Literal.isOpening, Bool.or_eq_false_iff, beq_eq_false_iff_ne, beq_eq_false_iff_ne]
  exact ⟨ne_of_mem_of_not_mem hc h.1, ne_of_mem_of_not_mem hc h.2⟩

theorem append {s t : String} (hs : Plain s) (ht : Plain t) : Plain (s ++ t) := by
  simp only [Plain, String.toList_append, List.mem_append, not_or]
  exact ⟨⟨hs.1, ht.1⟩, hs.2, ht.2⟩

/-- Text of characters of a class that no literal begins with. -/
theorem of_forall {cs : List Char} {p : Char → Prop} (h : ∀ c ∈ cs, p c) (hquote : ¬ p '"') (htick : ¬ p '\x60') :
    Plain (String.ofList cs) := by
  rw [Plain, String.toList_ofList]
  exact ⟨fun hmem => hquote (h _ hmem), fun hmem => htick (h _ hmem)⟩

end Plain

/-- Whatever follows it, `text` is read as the code of `frame` with the literals `ls` in it. -/
def Scans (text frame : String) (ls : List Literal) : Prop :=
  ∃ ts, (∀ rest, scan? (text.toList ++ rest) = (scan? rest).map (ts ++ ·)) ∧
    Token.emptied ts = frame ∧ Token.literals ts = ls

namespace Scans

variable {text frame text' frame' : String} {ls ls' : List Literal}

theorem scan?_eq (h : Scans text frame ls) :
    ∃ ts, scan? text.toList = some ts ∧ Token.emptied ts = frame ∧ Token.literals ts = ls := by
  obtain ⟨ts, hscan, hframe, hls⟩ := h
  refine ⟨ts, ?_, hframe, hls⟩
  simpa [scan?] using hscan []

theorem append (h : Scans text frame ls) (h' : Scans text' frame' ls') :
    Scans (text ++ text') (frame ++ frame') (ls ++ ls') := by
  obtain ⟨ts, hscan, rfl, rfl⟩ := h
  obtain ⟨us, hscan', rfl, rfl⟩ := h'
  refine ⟨ts ++ us, ?_, Token.emptied_append ts us, Token.literals_append ts us⟩
  intro rest
  rw [String.toList_append, List.append_assoc, hscan, hscan', Option.map_map]
  simp only [Function.comp_def, List.append_assoc]

/-- Plain text is code. -/
theorem plain (h : Plain text) : Scans text text [] := by
  refine ⟨text.toList.map .code, scan?_append_of_code h.not_isOpening, ?_, ?_⟩
  · rw [← String.toList_inj, Token.emptied, String.toList_join, List.map_map, List.flatMap_map]
    simp
  · simp [Token.literals, List.filterMap_map]

theorem append_plain (h : Scans text frame ls) (h' : Plain text') : Scans (text ++ text') (frame ++ text') ls := by
  simpa using h.append (plain h')

/-- A part between code. -/
theorem within {before after : String} (hbefore : Plain before) (h : Scans text frame ls) (hafter : Plain after) :
    Scans (before ++ text ++ after) (before ++ frame ++ after) ls :=
  ((plain hbefore).append h).append_plain hafter

/-- A text that is read as a literal. -/
theorem literal {l : Literal} (h : ∀ rest, Literal.read? (text.toList ++ rest) = some (l, rest)) :
    Scans text Literal.mark [l] :=
  ⟨[.literal l], fun rest => scan?_of_read? (h rest), by simp [Token.emptied], rfl⟩

theorem quote (s : String) : Scans (Script.quote s) Literal.mark [.quoted s] := by
  refine literal fun rest => ?_
  have hread := StringLiteral.read?_quote s rest
  rw [StringLiteral.toList_quote, List.cons_append] at hread ⊢
  rw [Literal.read?, hread]
  rfl

theorem template {ps : List Part} (h : Part.Canonical ps) :
    Scans (Script.template ps) Literal.mark [.template ⟨Part.texts ps, Part.names ps⟩] := by
  refine literal fun rest => ?_
  have hread := TemplateLiteral.read?_template (Part.parts?_texts h) rest
  rw [TemplateLiteral.toList_template, List.cons_append] at hread ⊢
  rw [Literal.read?, hread]
  rfl

/-- A part has no text iff it has neither code nor literals. -/
theorem eq_empty_iff (h : Scans text frame ls) : text = "" ↔ frame = "" := by
  obtain ⟨ts, hscan, rfl, -⟩ := h
  have hts : scan? text.toList = some ts := by simpa [scan?] using hscan []
  constructor
  · rintro rfl
    obtain rfl : [] = ts := by simpa [scan?] using hts
    rfl
  · intro hframe
    cases ts with
    | nil => simpa using eq_nil_of_scan? hts
    | cons t ts =>
      rw [← String.toList_inj, Token.emptied, List.map_cons, String.join_cons, String.toList_append] at hframe
      cases t <;> simp [Literal.mark] at hframe

end Scans

/-! ### Laid out in lines -/

theorem plain_indentation (level : Nat) : Plain (Edit.indentation level) :=
  .of_forall (fun _ hc => List.eq_of_mem_replicate hc) (by decide) (by decide)

theorem Scans.lineText {text frame : String} {ls : List Literal} (h : Scans text frame ls) (level : Nat) :
    Scans (Edit.lineText level text) (Edit.lineText level frame) ls := by
  unfold Edit.lineText
  by_cases htext : text = ""
  · rw [if_pos htext, if_pos (h.eq_empty_iff.mp htext)]
    obtain ⟨ts, hscan, -, rfl⟩ := h.scan?_eq
    obtain rfl : [] = ts := by simpa [htext, scan?] using hscan
    exact plain (by decide)
  · rw [if_neg htext, if_neg (mt h.eq_empty_iff.mpr htext)]
    exact within (plain_indentation level) h (by decide)

/-- At every level, `es` writes what `fs` writes, with the literals `ls` in it, and leads to the same level. -/
def Lays (es fs : List Edit) (ls : List Literal) : Prop :=
  ∀ level, Scans (Edit.text level es) (Edit.text level fs) ls ∧ Edit.level level es = Edit.level level fs

namespace Lays

variable {es fs es' fs' : List Edit} {ls ls' : List Literal} {text frame : String}

theorem append (h : Lays es fs ls) (h' : Lays es' fs' ls') : Lays (es ++ es') (fs ++ fs') (ls ++ ls') := by
  intro level
  obtain ⟨hscan, hlevel⟩ := h level
  obtain ⟨hscan', hlevel'⟩ := h' (Edit.level level es)
  rw [Edit.text_append, Edit.text_append, Edit.level_append, Edit.level_append, ← hlevel]
  exact ⟨hscan.append hscan', hlevel'⟩

theorem append_code (h : Lays es fs ls) (h' : Lays es' fs' []) : Lays (es ++ es') (fs ++ fs') ls := by
  simpa using h.append h'

theorem nil : Lays [] [] [] := fun _ => ⟨Scans.plain (show Plain "" by decide), rfl⟩

/-- An edit that adds a line; where it adds it and what level follows does not depend on the line. -/
private theorem one {e f : Edit} (hadded : ∀ level, Scans (e.added level) (f.added level) ls)
    (hnext : ∀ level, e.next level = f.next level) : Lays [e] [f] ls := by
  intro level
  rw [Edit.text, Edit.text, Edit.text, Edit.text, String.append_empty, String.append_empty]
  exact ⟨hadded level, hnext level⟩

theorem line (h : Scans text frame ls) : Lays [.line text] [.line frame] ls :=
  one (fun level => h.lineText level) fun _ => rfl

theorem opening (h : Plain text) : Lays [.opening text] [.opening text] [] :=
  one (fun level => (Scans.plain h).lineText level) fun _ => rfl

theorem block (h : Plain (text ++ " \x7b")) : Lays [.block text] [.block text] [] :=
  one (fun level => (Scans.plain h).lineText level) fun _ => rfl

theorem closing (h : Plain text) : Lays [.closing text] [.closing text] [] :=
  one (fun level => (Scans.plain h).lineText (level - 1)) fun _ => rfl

end Lays

end FlowScript
