import FlowScript.Program.Interpolation

/-!
# Splitting texts is invertible

A list of parts is canonical if it could not be cut in another way: literal parts are not empty, do not stand side by
side and hold no token, and references have proper names.  Splitting a text gives the one canonical list that renders
as this text: `Part.render_split`, `Part.canonical_split` and `Part.split_render`.

`Reference.front?` is the step of the scanner: the token that a text begins with.  While text is gathered, no token
begins inside it (`Part.Clear`); this is what carries both directions.
-/

namespace FlowScript

/-- A letter or underscore, and then letters, digits and underscores. -/
def IsName (s : String) : Prop :=
  ∃ c cs, s.toList = c :: cs ∧ (c.isAlpha ∨ c = '_') ∧ ∀ d ∈ cs, d.isAlphanum ∨ d = '_'

theorem isIdentifier_iff {s : String} : isIdentifier s.toList = true ↔ IsName s := by
  unfold isIdentifier IsName
  cases s.toList with
  | nil => simp
  | cons c cs => simp [isIdentifierStart, isIdentifierChar, and_assoc]

theorem IsName.isIdentifierChar_of_mem {s : String} (h : IsName s) {c : Char} (hc : c ∈ s.toList) :
    isIdentifierChar c = true := by
  obtain ⟨d, ds, hs, hd, hds⟩ := h
  rw [hs, List.mem_cons] at hc
  rcases hc with rfl | hc
  · rcases hd with hd | rfl
    · simp [isIdentifierChar, Char.isAlphanum, hd]
    · rfl
  · simpa [isIdentifierChar] using hds c hc

/-- A character of a name is neither a brace nor a dollar sign. -/
theorem IsName.char_ne {s : String} (h : IsName s) {c : Char} (hc : c ∈ s.toList) : c ≠ '\x7d' ∧ c ≠ '$' := by
  have hchar := h.isIdentifierChar_of_mem hc
  constructor <;> rintro rfl <;> exact absurd hchar (by decide)

namespace Scope

theorem ofName?_name (s : Scope) : ofName? s.name = some s := by
  cases s <;> decide

theorem name_of_ofName? {name : String} {s : Scope} (h : ofName? name = some s) : s.name = name := by
  simpa using List.find?_some h

/-- A character of a scope's name is none of those that end it. -/
theorem char_ne (s : Scope) : ∀ c ∈ s.name.toList, c ≠ '.' ∧ c ≠ '\x7d' ∧ c ≠ '$' := by
  cases s <;> simp [name]

end Scope

/-- A text up to a character, and what follows the character. -/
private theorem takeWhile_ne_append {stop : Char} {cs : List Char} (rest : List Char) (h : stop ∉ cs) :
    (cs ++ stop :: rest).takeWhile (· != stop) = cs ∧ (cs ++ stop :: rest).dropWhile (· != stop) = stop :: rest := by
  have hne : ∀ c ∈ cs, (c != stop) = true := by
    intro c hc
    rw [bne_iff_ne]
    rintro rfl
    exact h hc
  rw [List.takeWhile_append_of_pos hne, List.dropWhile_append_of_pos hne]
  simp

/-- A text that has a character is cut at its first occurrence. -/
private theorem eq_takeWhile_append {stop c : Char} {cs rest : List Char}
    (h : cs.dropWhile (· != stop) = c :: rest) : c = stop ∧ cs = cs.takeWhile (· != stop) ++ stop :: rest := by
  have hc : c = stop := by
    have := List.head?_dropWhile_not (· != stop) cs
    simpa [h] using this
  subst hc
  refine ⟨rfl, ?_⟩
  conv => lhs; rw [← List.takeWhile_append_dropWhile (p := (· != c)) (l := cs), h]

namespace Reference

variable {r : Reference} {cs rest : List Char}

theorem text_eq (r : Reference) : r.text.toList = r.scope.name.toList ++ '.' :: r.identifier.toList := by
  simp [text]

theorem ofInner?_eq_some : ofInner? cs = some r ↔ IsName r.identifier ∧ cs = r.text.toList := by
  constructor
  · intro h
    unfold ofInner? at h
    split at h
    · cases h
    · next c identifier hdrop =>
      obtain ⟨-, hcs⟩ := eq_takeWhile_append hdrop
      split at h
      · next scope hscope =>
        split at h
        · next hid =>
          cases h
          rw [text_eq, Scope.name_of_ofName? hscope, String.toList_ofList, String.toList_ofList]
          exact ⟨isIdentifier_iff.mp (by rwa [String.toList_ofList]), hcs⟩
        · cases h
      · cases h
  · rintro ⟨hname, rfl⟩
    obtain ⟨htake, hdrop⟩ := takeWhile_ne_append r.identifier.toList fun h => (r.scope.char_ne _ h).1 rfl
    rw [ofInner?, text_eq, htake, hdrop]
    simp [Scope.ofName?_name, isIdentifier_iff.mpr hname]

/-- No character of a reference's text is a closing brace or a dollar sign. -/
theorem char_ne (h : IsName r.identifier) {c : Char} (hc : c ∈ r.text.toList) : c ≠ '\x7d' ∧ c ≠ '$' := by
  rw [text_eq, List.mem_append, List.mem_cons] at hc
  rcases hc with hc | rfl | hc
  · exact (r.scope.char_ne c hc).2
  · decide
  · exact h.char_ne hc

theorem read?_eq_some :
    read? cs = some (r, rest) ↔ IsName r.identifier ∧ cs = r.text.toList ++ '\x7d' :: rest := by
  constructor
  · intro h
    unfold read? at h
    split at h
    · cases h
    · next c tail hdrop =>
      obtain ⟨-, hcs⟩ := eq_takeWhile_append hdrop
      simp only [Option.map_eq_some_iff, Prod.mk.injEq] at h
      obtain ⟨q, hq, rfl, rfl⟩ := h
      obtain ⟨hname, htext⟩ := ofInner?_eq_some.mp hq
      rw [← htext]
      exact ⟨hname, hcs⟩
  · rintro ⟨hname, rfl⟩
    obtain ⟨htake, hdrop⟩ := takeWhile_ne_append rest fun h => (char_ne hname h).1 rfl
    rw [read?, htake, hdrop]
    simp [ofInner?_eq_some.mpr ⟨hname, rfl⟩]

/-- The text that stands for a reference in a workflow. -/
def token (r : Reference) : List Char := (Part.var r).source.toList

theorem token_eq (r : Reference) : r.token = '$' :: '\x7b' :: (r.text.toList ++ ['\x7d']) := by
  simp [token, Part.source]

/-- The reference whose token a text begins with, and what follows the token. -/
def front? : List Char → Option (Reference × List Char)
  | '$' :: '\x7b' :: inner => read? inner
  | _ => none

theorem front?_eq_some : front? cs = some (r, rest) ↔ IsName r.identifier ∧ cs = r.token ++ rest := by
  rw [token_eq]
  unfold front?
  split
  · rw [read?_eq_some]
    simp
  · next h =>
    simp only [reduceCtorEq, false_iff, not_and]
    rintro - rfl
    exact h _ rfl

theorem length_front? (h : front? cs = some (r, rest)) : rest.length < cs.length := by
  obtain ⟨-, rfl⟩ := front?_eq_some.mp h
  simp [token_eq]
  omega

end Reference

namespace Part

open Reference

/-- Whether a text holds a token somewhere. -/
def HasToken (s : String) : Prop := ∃ r : Reference, IsName r.identifier ∧ r.token <:+: s.toList

/-- Parts that could not have been cut in another way. -/
structure Canonical (ps : List Part) : Prop where
  literal : ∀ s, lit s ∈ ps → s ≠ "" ∧ ¬ HasToken s
  named : ∀ r, var r ∈ ps → IsName r.identifier
  separated : ∀ s t, ¬ [lit s, lit t] <:+: ps

/-! ### The scanner, step by step -/

theorem splitFrom_of_front? {acc cs rest : List Char} {r : Reference} (h : front? cs = some (r, rest)) :
    splitFrom acc cs = literal? acc.reverse ++ var r :: splitFrom [] rest := by
  unfold front? at h
  split at h
  · rw [splitFrom]
    split
    · next hread => rw [h] at hread; cases hread; rfl
    · next hread => rw [h] at hread; cases hread
  · cases h

/-- A character that begins no token is literal text; so is a false opening, character by character. -/
theorem splitFrom_cons {acc cs : List Char} {c : Char} (h : front? (c :: cs) = none) :
    splitFrom acc (c :: cs) = splitFrom (c :: acc) cs := by
  conv => lhs; rw [splitFrom.eq_def]
  split
  · next heq => cases heq
  · next inner heq =>
    cases heq
    have hread : read? inner = none := h
    split
    · next hsome => rw [hread] at hsome; cases hsome
    · conv => rhs; rw [splitFrom.eq_def]
      rfl
  · next heq =>
    cases heq
    rfl

/-- Induction along the scanner: a text ends, or begins with a token, or with a character that begins none. -/
theorem splitFrom_induction {motive : List Char → List Char → Prop} (nil : ∀ acc, motive acc [])
    (token : ∀ acc cs r rest, front? cs = some (r, rest) → motive [] rest → motive acc cs)
    (char : ∀ acc c cs, front? (c :: cs) = none → motive (c :: acc) cs → motive acc (c :: cs)) :
    ∀ acc cs, motive acc cs
  | acc, [] => nil acc
  | acc, c :: cs =>
    match h : front? (c :: cs) with
    | some (r, rest) => token acc _ r rest h (splitFrom_induction nil token char [] rest)
    | none => char acc c cs h (splitFrom_induction nil token char (c :: acc) cs)
termination_by _ cs => cs.length
decreasing_by
  · exact length_front? h
  · exact Nat.lt_succ_self cs.length

/-! ### Nothing is lost -/

theorem toList_render (ps : List Part) : (render ps).toList = ps.flatMap fun p => p.source.toList := by
  rw [render, String.toList_join, List.flatMap_map]

private theorem flatMap_literal? (cs : List Char) : ((literal? cs).flatMap fun p => p.source.toList) = cs := by
  cases cs <;> simp [literal?, source]

private theorem flatMap_splitFrom (acc cs : List Char) :
    ((splitFrom acc cs).flatMap fun p => p.source.toList) = acc.reverse ++ cs := by
  induction acc, cs using splitFrom_induction with
  | nil acc => rw [splitFrom, flatMap_literal?, List.append_nil]
  | token acc cs r rest h ih =>
    obtain ⟨-, rfl⟩ := front?_eq_some.mp h
    rw [splitFrom_of_front? h, List.flatMap_append, flatMap_literal?, List.flatMap_cons, ih]
    rfl
  | char acc c cs h ih =>
    rw [splitFrom_cons h, ih, List.reverse_cons, List.append_assoc, List.singleton_append]

/-- The parts of a text put together are the text. -/
theorem render_split (raw : String) : render (split raw) = raw := by
  rw [← String.toList_inj, toList_render, split, flatMap_splitFrom, List.reverse_nil, List.nil_append]

/-! ### The parts are canonical -/

/-- No token of the text `cs ++ rest` begins inside `cs`. -/
def Clear (cs rest : List Char) : Prop := ∀ u v, cs = u ++ v → v ≠ [] → front? (v ++ rest) = none

theorem Clear.nil (rest : List Char) : Clear [] rest := by
  intro u v huv hv
  exact absurd (List.append_eq_nil_iff.mp huv.symm).2 hv

theorem Clear.not_hasToken {cs rest : List Char} (h : Clear cs rest) : ¬ HasToken (String.ofList cs) := by
  rintro ⟨r, hname, u, v, huv⟩
  rw [String.toList_ofList] at huv
  have hfront : front? (r.token ++ v ++ rest) = some (r, v ++ rest) :=
    front?_eq_some.mpr ⟨hname, List.append_assoc ..⟩
  have := h u (r.token ++ v) (by rw [← huv, List.append_assoc]) (by simp [token_eq])
  rw [hfront] at this
  cases this

/-- Taking one more character that begins no token. -/
theorem Clear.snoc {cs rest : List Char} {c : Char} (h : Clear cs (c :: rest)) (hc : front? (c :: rest) = none) :
    Clear (cs ++ [c]) rest := by
  intro u v huv hv
  obtain ⟨w, d, rfl⟩ : ∃ w d, v = w ++ [d] := ⟨v.dropLast, v.getLast hv, (List.dropLast_concat_getLast hv).symm⟩
  rw [← List.append_assoc] at huv
  obtain ⟨rfl, hd⟩ := List.append_inj' huv rfl
  obtain rfl : c = d := by simpa using hd
  rw [List.append_assoc, List.singleton_append]
  cases w with
  | nil => exact hc
  | cons x w => exact h u (x :: w) rfl (by simp)

theorem canonical_nil : Canonical [] :=
  ⟨by simp, by simp, by simp⟩

theorem Canonical.tail {p : Part} {ps : List Part} (h : Canonical (p :: ps)) : Canonical ps where
  literal s hs := h.literal s (List.mem_cons_of_mem p hs)
  named r hr := h.named r (List.mem_cons_of_mem p hr)
  separated s t hst := h.separated s t (List.infix_cons hst)

theorem canonical_var_cons {r : Reference} {ps : List Part} :
    Canonical (var r :: ps) ↔ IsName r.identifier ∧ Canonical ps := by
  constructor
  · intro h
    exact ⟨h.named r List.mem_cons_self, h.tail⟩
  · rintro ⟨hr, h⟩
    refine ⟨?_, ?_, ?_⟩
    · intro s hs
      simp only [List.mem_cons, reduceCtorEq, false_or] at hs
      exact h.literal s hs
    · intro q hq
      simp only [List.mem_cons, var.injEq] at hq
      rcases hq with rfl | hq
      · exact hr
      · exact h.named q hq
    · intro s t hst
      rw [List.infix_cons_iff] at hst
      rcases hst with hst | hst
      · simp at hst
      · exact h.separated s t hst

theorem canonical_lit_cons {s : String} {ps : List Part} :
    Canonical (lit s :: ps) ↔ s ≠ "" ∧ ¬ HasToken s ∧ (∀ t, ps.head? ≠ some (lit t)) ∧ Canonical ps := by
  constructor
  · intro h
    obtain ⟨hne, htoken⟩ := h.literal s List.mem_cons_self
    refine ⟨hne, htoken, ?_, h.tail⟩
    intro t ht
    obtain ⟨qs, rfl⟩ := List.head?_eq_some_iff.mp ht
    exact h.separated s t ⟨[], qs, rfl⟩
  · rintro ⟨hne, htoken, hhead, h⟩
    refine ⟨?_, ?_, ?_⟩
    · intro t ht
      simp only [List.mem_cons, lit.injEq] at ht
      rcases ht with rfl | ht
      · exact ⟨hne, htoken⟩
      · exact h.literal t ht
    · intro q hq
      simp only [List.mem_cons, reduceCtorEq, false_or] at hq
      exact h.named q hq
    · intro t u htu
      rw [List.infix_cons_iff] at htu
      rcases htu with htu | htu
      · rw [List.cons_prefix_cons] at htu
        obtain ⟨qs, hqs⟩ := htu.2
        exact hhead u (by rw [← hqs]; rfl)
      · exact h.separated t u htu

/-- Literal text that no token begins in may stand before parts that begin with a reference, or end a list. -/
private theorem canonical_literal?_append {cs rest : List Char} (hcs : Clear cs rest) {ps : List Part}
    (hps : Canonical ps) (hhead : ∀ t, ps.head? ≠ some (lit t)) : Canonical (literal? cs ++ ps) := by
  cases cs with
  | nil => exact hps
  | cons c cs =>
    refine canonical_lit_cons.mpr ⟨?_, hcs.not_hasToken, hhead, hps⟩
    simp [← String.toList_inj]

private theorem canonical_splitFrom (acc cs : List Char) (h : Clear acc.reverse cs) :
    Canonical (splitFrom acc cs) := by
  -- along the scanner, no token of what is left begins in what was gathered
  induction acc, cs using splitFrom_induction with
  | nil acc =>
    rw [splitFrom, ← List.append_nil (literal? acc.reverse)]
    exact canonical_literal?_append h canonical_nil (by simp)
  | token acc cs r rest hfront ih =>
    rw [splitFrom_of_front? hfront]
    have hname := (front?_eq_some.mp hfront).1
    exact canonical_literal?_append h (canonical_var_cons.mpr ⟨hname, ih (Clear.nil rest)⟩) (by simp)
  | char acc c cs hfront ih =>
    rw [splitFrom_cons hfront]
    refine ih ?_
    rw [List.reverse_cons]
    exact h.snoc hfront

theorem canonical_split (raw : String) : Canonical (split raw) :=
  canonical_splitFrom [] raw.toList (Clear.nil raw.toList)

/-! ### Canonical parts are found again -/

/-- Text that no token begins in is gathered as it is. -/
private theorem splitFrom_append {cs rest : List Char} (h : Clear cs rest) (acc : List Char) :
    splitFrom acc (cs ++ rest) = splitFrom (cs.reverse ++ acc) rest := by
  induction cs generalizing acc with
  | nil => rfl
  | cons c cs ih =>
    have hfront : front? (c :: (cs ++ rest)) = none := h [] (c :: cs) rfl (by simp)
    rw [List.cons_append, splitFrom_cons hfront, ih (fun u v huv hv => h (c :: u) v (by rw [huv]; rfl) hv)]
    simp

/-- A token cannot begin in a literal part and end in the part after it: the dollar sign of the next token would stand
inside it. -/
private theorem clear_of_not_hasToken {s : String} (hs : ¬ HasToken s) (rest : List Char)
    (hrest : ∀ c, rest.head? = some c → c = '$') : Clear s.toList rest := by
  intro u v huv hv
  cases hfront : front? (v ++ rest) with
  | none => rfl
  | some p =>
    obtain ⟨r, tail⟩ := p
    obtain ⟨hname, heq⟩ := front?_eq_some.mp hfront
    exfalso
    rcases List.append_eq_append_iff.mp heq with ⟨z, hz, htail⟩ | ⟨z, hz, htail⟩
    · -- the token goes on in `rest`, which begins with a dollar sign
      cases z with
      | nil =>
        exact hs ⟨r, hname, u, [], by rw [huv, hz]; simp⟩
      | cons c z =>
        obtain rfl := hrest c (by rw [htail]; rfl)
        obtain ⟨x, v, rfl⟩ := List.exists_cons_of_ne_nil hv
        rw [token_eq] at hz
        have hmem : '$' ∈ '\x7b' :: (r.text.toList ++ ['\x7d']) := by
          rw [(List.cons.inj hz).2]
          simp
        simp only [List.mem_cons, List.mem_append, List.not_mem_nil, or_false] at hmem
        rcases hmem with h | h | h
        · cases h
        · exact (char_ne hname h).2 rfl
        · cases h
    · exact hs ⟨r, hname, u, z, by rw [huv, hz, List.append_assoc]⟩

private theorem front?_token_append {r : Reference} (h : IsName r.identifier) (rest : List Char) :
    front? ((var r).source.toList ++ rest) = some (r, rest) :=
  front?_eq_some.mpr ⟨h, rfl⟩

theorem literal?_toList {s : String} (h : s ≠ "") : literal? s.toList = [lit s] := by
  have : s.toList ≠ [] := by simpa using h
  simp [literal?, this]

private theorem splitFrom_flatMap {ps : List Part} (h : Canonical ps) :
    splitFrom [] (ps.flatMap fun p => p.source.toList) = ps := by
  induction ps with
  | nil =>
    rw [List.flatMap_nil, splitFrom]
    rfl
  | cons p ps ih =>
    rw [List.flatMap_cons]
    cases p with
    | var r =>
      obtain ⟨hname, hps⟩ := canonical_var_cons.mp h
      rw [splitFrom_of_front? (front?_token_append hname _), ih hps]
      rfl
    | lit s =>
      obtain ⟨hne, htoken, hhead, hps⟩ := canonical_lit_cons.mp h
      have ih := ih hps
      -- what stands after the literal part decides whether a token could begin in it
      cases ps with
      | nil =>
        have hclear := clear_of_not_hasToken htoken [] (by simp)
        rw [List.flatMap_nil, source, splitFrom_append hclear, splitFrom, List.append_nil, List.reverse_reverse,
          literal?_toList hne]
      | cons q ps =>
        cases q with
        | lit t => exact absurd rfl (hhead t)
        | var r =>
          have hname := (canonical_var_cons.mp hps).1
          rw [List.flatMap_cons] at ih ⊢
          have hfront := front?_token_append hname (ps.flatMap fun p => p.source.toList)
          have hclear := clear_of_not_hasToken htoken
            ((var r).source.toList ++ ps.flatMap fun p => p.source.toList) (by simp [source])
          rw [splitFrom_of_front? hfront] at ih
          rw [source, splitFrom_append hclear, splitFrom_of_front? hfront, List.append_nil, List.reverse_reverse,
            literal?_toList hne, List.singleton_append]
          exact congrArg (lit s :: ·) ih

theorem split_render {ps : List Part} (h : Canonical ps) : split (render ps) = ps := by
  rw [split, toList_render, splitFrom_flatMap h]

end Part

namespace Expr

open FlowScript.Part

theorem hasToken_of_mem_split {raw : String} {r : Reference} (h : var r ∈ split raw) : HasToken raw := by
  refine ⟨r, (canonical_split raw).named r h, ?_⟩
  rw [← render_split raw, toList_render]
  obtain ⟨us, vs, hsplit⟩ := List.append_of_mem h
  rw [hsplit, List.flatMap_append, List.flatMap_cons]
  exact ⟨_, _, List.append_assoc ..⟩

theorem split_source {r : Reference} (h : IsName r.identifier) : split (var r).source = [var r] := by
  have := split_render (canonical_var_cons.mpr ⟨h, canonical_nil⟩)
  simpa [render] using this

theorem eq_split_of_template {raw : String} {ps : List Part} (h : ofText raw = .template ps) : ps = split raw := by
  unfold ofText at h
  split at h <;> cases h
  rfl

/-- A text is a literal, or a single token, or a template that holds a token and something else. -/
theorem ofText_cases (raw : String) :
    (¬ HasToken raw ∧ ofText raw = .literal (.str raw)) ∨
      (∃ r, IsName r.identifier ∧ raw = (var r).source ∧ ofText raw = .ref r) ∨
      (HasToken raw ∧ (∀ r, IsName r.identifier → raw ≠ (var r).source) ∧
        ofText raw = .template (split raw) ∧ 2 ≤ (split raw).length) := by
  have hcanon := canonical_split raw
  have hrender := render_split raw
  cases hps : split raw with
  | nil =>
    rw [hps] at hrender
    subst hrender
    left
    refine ⟨?_, by rw [ofText, hps]; rfl⟩
    rintro ⟨r, -, htoken⟩
    simp [render, Reference.token_eq] at htoken
  | cons p ps =>
    rw [hps] at hcanon hrender
    cases ps with
    | nil =>
      cases p with
      | lit s =>
        have hraw : s = raw := by simpa [render, source] using hrender
        left
        subst hraw
        exact ⟨(canonical_lit_cons.mp hcanon).2.1, by simp [ofText, hps]⟩
      | var r =>
        right; left
        exact ⟨r, (canonical_var_cons.mp hcanon).1, by simpa [render] using hrender.symm, by simp [ofText, hps]⟩
    | cons q ps =>
      right; right
      refine ⟨?_, ?_, ?_, by simp⟩
      · -- of two parts side by side one is a reference
        cases p with
        | var r => exact hasToken_of_mem_split (r := r) (by rw [hps]; simp)
        | lit s =>
          cases q with
          | var r => exact hasToken_of_mem_split (r := r) (by rw [hps]; simp)
          | lit t => exact absurd rfl ((canonical_lit_cons.mp hcanon).2.2.1 t)
      · rintro r hname rfl
        rw [split_source hname] at hps
        cases hps
      · simp [ofText, hps]

end Expr

namespace Part

/-- Splitting is a bijection from texts to canonical lists of parts, with rendering as its inverse; and what a text
becomes as an expression is decided by whether it holds a token, is one, or holds one and something else. -/
theorem split_bijection :
    (∀ raw, Canonical (split raw) ∧ render (split raw) = raw) ∧
      (∀ ps, Canonical ps → split (render ps) = ps) ∧
      ∀ raw, (∀ v, Expr.ofText raw = .literal v ↔ v = .str raw ∧ ¬ HasToken raw) ∧
        (∀ r, Expr.ofText raw = .ref r ↔ IsName r.identifier ∧ raw = (var r).source) ∧
        ((∃ ps, Expr.ofText raw = .template ps) ↔
          HasToken raw ∧ ¬ ∃ r, IsName r.identifier ∧ raw = (var r).source) ∧
        ∀ ps, Expr.ofText raw = .template ps → ps = split raw ∧ 2 ≤ ps.length := by
  refine ⟨fun raw => ⟨canonical_split raw, render_split raw⟩, fun ps h => split_render h, ?_⟩
  intro raw
  -- a text that is a token holds one
  have hsource : ∀ r, IsName r.identifier → HasToken (var r).source :=
    fun r h => ⟨r, h, List.infix_rfl⟩
  rcases Expr.ofText_cases raw with ⟨hno, htext⟩ | ⟨r, hname, rfl, htext⟩ | ⟨hhas, hother, htext, hlen⟩
  · refine ⟨?_, ?_, ?_, ?_⟩ <;> rw [htext]
    · simp [hno, eq_comm]
    · simp only [reduceCtorEq, false_iff, not_and]
      rintro r hr rfl
      exact hno (hsource r hr)
    · simp [hno]
    · simp
  · refine ⟨?_, ?_, ?_, ?_⟩ <;> rw [htext]
    · simp [hsource r hname]
    · intro q
      simp only [Expr.ref.injEq]
      constructor
      · rintro rfl
        exact ⟨hname, rfl⟩
      · rintro ⟨hq, heq⟩
        have := Expr.split_source hq
        rw [← heq, Expr.split_source hname] at this
        simpa using this
    · simp only [reduceCtorEq, exists_false, false_iff, not_and]
      exact fun _ hnone => hnone ⟨r, hname, rfl⟩
    · simp
  · refine ⟨?_, ?_, ?_, ?_⟩ <;> rw [htext]
    · simp [hhas]
    · simp only [reduceCtorEq, false_iff, not_and]
      exact fun r hr => hother r hr
    · simp only [Expr.template.injEq, exists_eq', true_iff]
      exact ⟨hhas, fun ⟨r, hr, heq⟩ => hother r hr heq⟩
    · rintro ps h
      cases h
      exact ⟨rfl, hlen⟩

/-- A false opening, a token and a lone dollar sign are told apart. -/
theorem split_bijection_false_opening :
    Canonical [lit "$\x7b", var ⟨.input, "x"⟩, lit "$"] ∧
      split (render [lit "$\x7b", var ⟨.input, "x"⟩, lit "$"]) = [lit "$\x7b", var ⟨.input, "x"⟩, lit "$"] := by
  have hbrace : ∀ s : String, '\x7d' ∉ s.toList → ¬ HasToken s := by
    rintro s hs ⟨r, -, htoken⟩
    exact hs (htoken.subset (by simp [Reference.token_eq]))
  have hcanon : Canonical [lit "$\x7b", var ⟨.input, "x"⟩, lit "$"] := by
    refine canonical_lit_cons.mpr ⟨by decide, hbrace _ (by decide), by simp, canonical_var_cons.mpr ⟨?_, ?_⟩⟩
    · exact ⟨'x', [], by decide, by decide, by simp⟩
    · exact canonical_lit_cons.mpr ⟨by decide, hbrace _ (by decide), by simp, canonical_nil⟩
  exact ⟨hcanon, split_bijection.2.1 _ hcanon⟩

end Part

end FlowScript
