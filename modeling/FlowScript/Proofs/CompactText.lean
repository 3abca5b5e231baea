import FlowScript.Proofs.NumberText
import FlowScript.Tree.Compact

/-!
# The compact text of a tree determines it

A quoted text is read as the text that it was written from, whatever follows it (`Json.stringBody?_flatMap_escape`), and
a number ends where a character follows that no number has.  So the text of a tree shows where it ends and which tree it
is (`Tree.compact_append_inj`), and no two trees have the same text (`Tree.compact_injective`).
-/

namespace FlowScript

namespace Json

theorem toList_quote (s : String) : (quote s).toList = '"' :: (s.toList.flatMap escape ++ ['"']) := by
  simp [quote]

theorem stringBody?_end (fuel : Nat) (acc rest : List Char) :
    stringBody? (fuel + 1) acc ('"' :: rest) = some (String.ofList acc.reverse, rest) := by
  rw [stringBody?]

theorem stringBody?_char {c : Char} (hquote : c ≠ '"') (hslash : c ≠ '\\') (hlow : ¬ c.toNat < 0x20) (fuel : Nat)
    (acc rest : List Char) : stringBody? (fuel + 1) acc (c :: rest) = stringBody? fuel (c :: acc) rest := by
  conv => lhs; rw [stringBody?.eq_def]
  dsimp only
  split
  · next heq => cases heq
  · next heq => exact absurd (List.cons.inj heq).1 hquote
  · next heq => exact absurd (List.cons.inj heq).1 hslash
  · next heq => exact absurd (List.cons.inj heq).1 hslash
  · next heq =>
    cases heq
    rw [if_neg hlow]

theorem hex4?_low {n : Nat} (h : n < 0x20) (rest : List Char) :
    hex4? ('0' :: '0' :: hexDigit (n / 16) :: hexDigit (n % 16) :: rest) = some (n, rest) := by
  have key : ∀ n < 0x20, readDigits? 16 ['0', '0', hexDigit (n / 16), hexDigit (n % 16)] = some n := by decide
  simp [hex4?, key n h]

theorem stringBody?_unicode {c : Char} (h : c.toNat < 0x20) (fuel : Nat) (acc rest : List Char) :
    stringBody? (fuel + 1) acc
        ('\\' :: 'u' :: '0' :: '0' :: hexDigit (c.toNat / 16) :: hexDigit (c.toNat % 16) :: rest) =
      stringBody? fuel (c :: acc) rest := by
  have hescape : unicodeEscape? ('0' :: '0' :: hexDigit (c.toNat / 16) :: hexDigit (c.toNat % 16) :: rest) =
      some (c, rest) := by
    have hhi : ¬ (0xD800 ≤ c.toNat ∧ c.toNat < 0xDC00) := by omega
    have hlo : ¬ (0xDC00 ≤ c.toNat ∧ c.toNat < 0xE000) := by omega
    simp [unicodeEscape?, hex4?_low h, hhi, hlo, Char.ofNat_toNat]
  rw [stringBody?]
  simp [hescape]

/-- A character is read as it was written. -/
theorem stringBody?_escape (c : Char) (fuel : Nat) (acc rest : List Char) :
    stringBody? (fuel + 1) acc (escape c ++ rest) = stringBody? fuel (c :: acc) rest := by
  unfold escape
  split
  · next h =>
    subst h
    rfl
  split
  · next h =>
    subst h
    rfl
  split
  · next h =>
    subst h
    rfl
  split
  · next h =>
    subst h
    rfl
  split
  · next h =>
    subst h
    rfl
  split
  · next h =>
    subst h
    rfl
  split
  · next h =>
    subst h
    rfl
  split
  · next h => exact stringBody?_unicode h fuel acc rest
  · next hquote hslash _ _ _ _ _ hlow => exact stringBody?_char hquote hslash hlow fuel acc rest

/-- A quoted text is read as the text, whatever follows it. -/
theorem stringBody?_flatMap_escape (cs acc rest : List Char) (fuel : Nat) :
    stringBody? (cs.length + fuel + 1) acc (cs.flatMap escape ++ '"' :: rest) =
      some (String.ofList (acc.reverse ++ cs), rest) := by
  induction cs generalizing acc with
  | nil =>
    rw [List.length_nil, Nat.zero_add, List.flatMap_nil, List.nil_append, stringBody?_end, List.append_nil]
  | cons c cs ih =>
    rw [List.length_cons, show cs.length + 1 + fuel + 1 = cs.length + fuel + 1 + 1 by omega, List.flatMap_cons,
      List.append_assoc, stringBody?_escape, ih, List.reverse_cons, List.append_assoc, List.singleton_append]

/-- Where one quoted text ends, every reading of it ends. -/
theorem quote_append_inj {k l : String} {r s : List Char} (h : (quote k).toList ++ r = (quote l).toList ++ s) :
    k = l ∧ r = s := by
  rw [toList_quote, toList_quote, List.cons_append, List.cons_append, List.cons.injEq, List.append_assoc,
    List.append_assoc, List.singleton_append, List.singleton_append] at h
  have hk := stringBody?_flatMap_escape k.toList [] r l.toList.length
  have hl := stringBody?_flatMap_escape l.toList [] s k.toList.length
  rw [h.2, Nat.add_comm k.toList.length, hl] at hk
  simp only [List.reverse_nil, List.nil_append, String.ofList_toList, Option.some.injEq, Prod.mk.injEq] at hk
  exact ⟨hk.1.symm, hk.2.symm⟩

end Json

/-- What follows does not go on with a number. -/
def Json.Stops (rest : List Char) : Prop := ∀ c ∈ rest.head?, isNumberChar c = false

theorem Json.stops_cons {c : Char} {rest : List Char} (h : isNumberChar c = false) : Stops (c :: rest) := by
  intro d hd
  cases hd
  exact h

theorem Number.text_append_inj {a b : Number} {r s : List Char} (hr : Json.Stops r) (hs : Json.Stops s)
    (h : a.text.toList ++ r = b.text.toList ++ s) : a = b ∧ r = s := by
  have htake : ∀ (n : Number) {rest : List Char}, Json.Stops rest →
      (n.text.toList ++ rest).takeWhile Json.isNumberChar = n.text.toList := by
    intro n rest hrest
    rw [List.takeWhile_append_of_pos fun c hc => isNumberChar_of_mem_text hc]
    cases rest with
    | nil => simp
    | cons c rest =>
      have hc := hrest c rfl
      simp [hc]
  have htext : a.text = b.text := by
    rw [← String.toList_inj, ← htake a hr, h, htake b hs]
  rw [htext, List.append_cancel_left_eq] at h
  exact ⟨text_injective htext, h⟩

namespace Tree

/-! ### First characters -/

/-- The shapes of trees, as far as the first character of their text shows them. -/
inductive Opening where
  | null
  | yes
  | no
  | number
  | text
  | list
  | object
deriving DecidableEq

def opening : Tree → Opening
  | null => .null
  | bool true => .yes
  | bool false => .no
  | num _ => .number
  | str _ => .text
  | arr _ => .list
  | obj _ => .object

/-- What a first character opens. -/
def Opening.ofChar? (c : Char) : Option Opening :=
  if c = 'n' then some null
  else if c = 't' then some yes
  else if c = 'f' then some no
  else if c = '"' then some text
  else if c = '[' then some list
  else if c = '\x7b' then some object
  else if c = '-' ∨ c.isDigit then some number
  else none

theorem Opening.ofChar?_number {c : Char} (h : c = '-' ∨ c.isDigit = true) : ofChar? c = some number := by
  rcases h with rfl | h
  · rfl
  · have hne : ∀ d : Char, d.isDigit = false → c ≠ d := by
      rintro d hd rfl
      rw [h] at hd
      cases hd
    simp [ofChar?, h, hne 'n' rfl, hne 't' rfl, hne 'f' rfl, hne '"' rfl, hne '[' rfl, hne '\x7b' rfl]

theorem exists_compact_eq_cons (t : Tree) :
    ∃ c rest, t.compact.toList = c :: rest ∧ Opening.ofChar? c = some t.opening := by
  cases t with
  | null => exact ⟨'n', _, rfl, rfl⟩
  | bool b =>
    cases b
    · exact ⟨'f', _, rfl, rfl⟩
    · exact ⟨'t', _, rfl, rfl⟩
  | num n =>
    obtain ⟨c, rest, htext, hc⟩ := n.exists_text_eq_cons
    exact ⟨c, rest, htext, Opening.ofChar?_number hc⟩
  | str s => exact ⟨'"', _, Json.toList_quote s, rfl⟩
  | arr ts => exact ⟨'[', (compactItems ts).toList ++ [']'], by simp [compact], rfl⟩
  | obj fs => exact ⟨'\x7b', (compactFields fs).toList ++ ['\x7d'], by simp [compact], rfl⟩

theorem opening_eq {t u : Tree} {r s : List Char} (h : t.compact.toList ++ r = u.compact.toList ++ s) :
    t.opening = u.opening := by
  obtain ⟨c, tail, ht, hc⟩ := t.exists_compact_eq_cons
  obtain ⟨d, tail', hu, hd⟩ := u.exists_compact_eq_cons
  rw [ht, hu, List.cons_append, List.cons_append, List.cons.injEq] at h
  rw [h.1, hd] at hc
  exact (Option.some.inj hc).symm

/-- No tree begins with a character that opens nothing, such as a closing bracket. -/
theorem compact_append_ne_cons {t : Tree} {c : Char} (hc : Opening.ofChar? c = none) (r s : List Char) :
    t.compact.toList ++ r ≠ c :: s := by
  obtain ⟨d, tail, ht, hd⟩ := t.exists_compact_eq_cons
  rw [ht, List.cons_append]
  intro h
  rw [(List.cons.inj h).1, hc] at hd
  cases hd

/-! ### Items and fields -/

theorem toList_compactItems_cons (t : Tree) (ts : List Tree) :
    (compactItems (t :: ts)).toList =
      t.compact.toList ++ (if ts = [] then [] else ',' :: (compactItems ts).toList) := by
  cases ts with
  | nil => simp [compactItems]
  | cons u us => simp [compactItems]

theorem toList_compactFields_cons (k : String) (t : Tree) (fs : Fields) :
    (compactFields ((k, t) :: fs)).toList =
      (Json.quote k).toList ++ (':' :: (t.compact.toList ++
        (if fs = [] then [] else ',' :: (compactFields fs).toList))) := by
  cases fs with
  | nil => simp [compactFields]
  | cons f fs => simp [compactFields]

mutual

/-- Where the text of one tree ends, every tree with that text ends, and it is the same tree. -/
theorem compact_append_inj : ∀ (t u : Tree) (r s : List Char), Json.Stops r → Json.Stops s →
    t.compact.toList ++ r = u.compact.toList ++ s → t = u ∧ r = s
  | null => by
    intro u r s _ _ h
    have hopening := opening_eq h
    cases u with
    | null => exact ⟨rfl, List.append_cancel_left h⟩
    | bool b => cases b <;> cases hopening
    | _ => cases hopening
  | bool a => by
    intro u r s _ _ h
    have hopening := opening_eq h
    cases u with
    | bool b =>
      have hab : a = b := by cases a <;> cases b <;> first | rfl | cases hopening
      subst hab
      exact ⟨rfl, List.append_cancel_left h⟩
    | _ => cases a <;> cases hopening
  | num a => by
    intro u r s hr hs h
    have hopening := opening_eq h
    cases u with
    | num b =>
      obtain ⟨hab, hrs⟩ := Number.text_append_inj (a := a) (b := b) hr hs h
      exact ⟨by rw [hab], hrs⟩
    | bool b => cases b <;> cases hopening
    | _ => cases hopening
  | str a => by
    intro u r s _ _ h
    have hopening := opening_eq h
    cases u with
    | str b =>
      obtain ⟨hab, hrs⟩ := Json.quote_append_inj (k := a) (l := b) h
      exact ⟨by rw [hab], hrs⟩
    | bool b => cases b <;> cases hopening
    | _ => cases hopening
  | arr ts => by
    intro u r s _ _ h
    have hopening := opening_eq h
    cases u with
    | arr us =>
      have h' : (compactItems ts).toList ++ ']' :: r = (compactItems us).toList ++ ']' :: s := by
        simpa [compact] using h
      obtain ⟨hts, hrs⟩ := compactItems_append_inj ts us r s h'
      exact ⟨by rw [hts], hrs⟩
    | bool b => cases b <;> cases hopening
    | _ => cases hopening
  | obj fs => by
    intro u r s _ _ h
    have hopening := opening_eq h
    cases u with
    | obj gs =>
      have h' : (compactFields fs).toList ++ '\x7d' :: r = (compactFields gs).toList ++ '\x7d' :: s := by
        simpa [compact] using h
      obtain ⟨hfs, hrs⟩ := compactFields_append_inj fs gs r s h'
      exact ⟨by rw [hfs], hrs⟩
    | bool b => cases b <;> cases hopening
    | _ => cases hopening

theorem compactItems_append_inj : ∀ (ts us : List Tree) (r s : List Char),
    (compactItems ts).toList ++ ']' :: r = (compactItems us).toList ++ ']' :: s → ts = us ∧ r = s
  | [], [] => fun _ _ h => ⟨rfl, (List.cons.inj h).2⟩
  | [], u :: us => by
    intro r s h
    rw [toList_compactItems_cons, List.append_assoc] at h
    exact absurd h.symm (compact_append_ne_cons rfl _ _)
  | t :: ts, [] => by
    intro r s h
    rw [toList_compactItems_cons, List.append_assoc] at h
    exact absurd h (compact_append_ne_cons rfl _ _)
  | t :: ts, u :: us => by
    intro r s h
    rw [toList_compactItems_cons, toList_compactItems_cons, List.append_assoc, List.append_assoc] at h
    have hstops : ∀ (vs : List Tree) (q : List Char),
        Json.Stops ((if vs = [] then [] else ',' :: (compactItems vs).toList) ++ ']' :: q) := by
      intro vs q
      split <;> exact Json.stops_cons rfl
    obtain ⟨rfl, htail⟩ := compact_append_inj t u _ _ (hstops ts r) (hstops us s) h
    by_cases hts : ts = [] <;> by_cases hus : us = []
    · subst hts hus
      exact ⟨rfl, (List.cons.inj htail).2⟩
    · rw [if_pos hts, if_neg hus] at htail
      exact absurd (List.cons.inj htail).1 (by decide)
    · rw [if_neg hts, if_pos hus] at htail
      exact absurd (List.cons.inj htail).1 (by decide)
    · rw [if_neg hts, if_neg hus] at htail
      obtain ⟨rfl, hrs⟩ := compactItems_append_inj ts us r s (List.cons.inj htail).2
      exact ⟨rfl, hrs⟩

theorem compactFields_append_inj : ∀ (fs gs : Fields) (r s : List Char),
    (compactFields fs).toList ++ '\x7d' :: r = (compactFields gs).toList ++ '\x7d' :: s → fs = gs ∧ r = s
  | [], [] => fun _ _ h => ⟨rfl, (List.cons.inj h).2⟩
  | [], (l, u) :: gs => by
    intro r s h
    rw [toList_compactFields_cons, Json.toList_quote] at h
    exact absurd (List.cons.inj h).1 (by decide)
  | (k, t) :: fs, [] => by
    intro r s h
    rw [toList_compactFields_cons, Json.toList_quote] at h
    exact absurd (List.cons.inj h).1 (by decide)
  | (k, t) :: fs, (l, u) :: gs => by
    intro r s h
    rw [toList_compactFields_cons, toList_compactFields_cons, List.append_assoc, List.append_assoc] at h
    obtain ⟨rfl, hvalue⟩ := Json.quote_append_inj h
    have hstops : ∀ (es : Fields) (q : List Char),
        Json.Stops ((if es = [] then [] else ',' :: (compactFields es).toList) ++ '\x7d' :: q) := by
      intro es q
      split <;> exact Json.stops_cons rfl
    rw [List.cons_append, List.cons_append, List.cons.injEq, List.append_assoc, List.append_assoc] at hvalue
    obtain ⟨rfl, htail⟩ := compact_append_inj t u _ _ (hstops fs r) (hstops gs s) hvalue.2
    by_cases hfs : fs = [] <;> by_cases hgs : gs = []
    · subst hfs hgs
      exact ⟨rfl, (List.cons.inj htail).2⟩
    · rw [if_pos hfs, if_neg hgs] at htail
      exact absurd (List.cons.inj htail).1 (by decide)
    · rw [if_neg hfs, if_pos hgs] at htail
      exact absurd (List.cons.inj htail).1 (by decide)
    · rw [if_neg hfs, if_neg hgs] at htail
      obtain ⟨rfl, hrs⟩ := compactFields_append_inj fs gs r s (List.cons.inj htail).2
      exact ⟨rfl, hrs⟩

end

/-- No two trees have the same compact text. -/
theorem compact_injective {t u : Tree} (h : t.compact = u.compact) : t = u := by
  have hstops : Json.Stops [] := by simp [Json.Stops]
  refine (compact_append_inj t u [] [] hstops hstops ?_).1
  rw [h]

end Tree

end FlowScript
