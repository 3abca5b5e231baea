import FlowScript.Proofs.Digits
import FlowScript.Proofs.TextLines
import FlowScript.Schema.Violation

/-!
# Pointers into trees

A pointer names a part of a tree by the keys and indices that lead to it.  As a text, each of these tokens begins with a
slash, and `~0` and `~1` stand for a tilde and a slash in it.  `Pointer.write` writes tokens the way paths of violations
are written, `Pointer.tokens?` reads a pointer, and the one undoes the other (`Pointer.tokens?_write`).
`Tree.at?` follows a pointer.  `Violation.stepIndex?` reads the second token of a path, if the first one is `steps`
(`stepIndex?_eq_some_iff`).
-/

namespace FlowScript

namespace Pointer

/-- A token with its escapes undone; a tilde that begins no escape is refused. -/
def unescape? : List Char → Option (List Char)
  | [] => some []
  | '~' :: '0' :: r => (unescape? r).map ('~' :: ·)
  | '~' :: '1' :: r => (unescape? r).map ('/' :: ·)
  | c :: r => if c = '~' then none else (unescape? r).map (c :: ·)

/-- The tokens of a pointer: the empty text has none, and any other begins with a slash. -/
def tokens? (pointer : String) : Option (List String) :=
  match pointer.toList with
  | [] => some []
  | '/' :: r => (pieces (· == '/') r).mapM fun token => (unescape? token).map String.ofList
  | _ => none

/-- The index that a token names: a number in decimal, without zeros in front. -/
def index? (token : String) : Option Nat :=
  if toString (numberOf 10 token.toList) = token then some (numberOf 10 token.toList) else none

/-- The pointer with the given tokens. -/
def write (tokens : List String) : String := tokens.foldl Violation.pathTo ""

end Pointer

namespace Tree

/-- The part of a tree that a token leads to. -/
def child? : Tree → String → Option Tree
  | .obj fs, token => Fields.get? fs token
  | .arr ts, token => (Pointer.index? token).bind fun i => ts[i]?
  | _, _ => none

def follow? (t : Tree) : List String → Option Tree
  | [] => some t
  | token :: tokens => (t.child? token).bind fun u => u.follow? tokens

/-- The part of a tree that a pointer designates. -/
def at? (t : Tree) (pointer : String) : Option Tree := (Pointer.tokens? pointer).bind t.follow?

end Tree

/-- The first piece goes up to the first cut. -/
theorem exists_pieces_eq_cons {α : Type} (p : α → Bool) (l : List α) :
    ∃ qs, pieces p l = l.takeWhile (fun c => !p c) :: qs := by
  induction l with
  | nil => exact ⟨[], rfl⟩
  | cons c l ih =>
    obtain ⟨qs, hqs⟩ := ih
    by_cases hc : p c = true
    · exact ⟨pieces p l, by rw [pieces_cons_of_pos hc, List.takeWhile_cons_of_neg (by simp [hc])]⟩
    · exact ⟨qs, by rw [pieces_cons_of_neg hc, hqs, List.takeWhile_cons_of_pos (by simp [hc])]; rfl⟩

namespace Pointer

/-! ### Writing and reading -/

/-- A token as it stands in a pointer. -/
def escape (token : String) : List Char := (Violation.pointerStep token).toList

theorem escape_eq (token : String) :
    escape token =
      token.toList.flatMap fun c => if c = '~' then ['~', '0'] else if c = '/' then ['~', '1'] else [c] := by
  simp [escape, Violation.pointerStep]

theorem slash_not_mem_escape (token : String) : '/' ∉ escape token := by
  rw [escape_eq, List.mem_flatMap]
  rintro ⟨c, -, hc⟩
  split at hc
  · simp at hc
  · next hslash =>
    split at hc
    · simp at hc
    · next hc' => exact hc' (List.mem_singleton.mp hc).symm

theorem unescape?_cons {c : Char} (h : c ≠ '~') (r : List Char) :
    unescape? (c :: r) = (unescape? r).map (c :: ·) := by
  conv => lhs; rw [unescape?.eq_def]
  split
  · next heq => cases heq
  · next heq => exact absurd (List.cons.inj heq).1 h
  · next heq => exact absurd (List.cons.inj heq).1 h
  · next heq =>
    cases heq
    rw [if_neg h]

theorem unescape?_escape (token : String) : unescape? (escape token) = some token.toList := by
  rw [escape_eq]
  induction token.toList with
  | nil => rfl
  | cons c cs ih =>
    rw [List.flatMap_cons]
    by_cases htilde : c = '~'
    · subst htilde
      rw [if_pos rfl]
      exact congrArg (Option.map ('~' :: ·)) ih
    · by_cases hslash : c = '/'
      · subst hslash
        rw [if_neg htilde, if_pos rfl]
        exact congrArg (Option.map ('/' :: ·)) ih
      · rw [if_neg htilde, if_neg hslash, List.singleton_append, unescape?_cons htilde, ih, Option.map_some]

theorem escape_injective {a b : String} (h : escape a = escape b) : a = b := by
  have ha := unescape?_escape a
  rw [h, unescape?_escape, Option.some.injEq, String.toList_inj] at ha
  exact ha.symm

theorem write_append (tokens : List String) (token : String) :
    write (tokens ++ [token]) = Violation.pathTo (write tokens) token := by
  rw [write, List.foldl_append]
  rfl

theorem toList_write (tokens : List String) : (write tokens).toList = tokens.flatMap fun k => '/' :: escape k := by
  induction tokens using List.reverseRecOn with
  | nil => rfl
  | append_singleton tokens token ih =>
    rw [write_append, Violation.pathTo, List.flatMap_append, ← ih]
    simp [escape]

theorem pieces_escape (token : String) : pieces (· == '/') (escape token) = [escape token] := by
  apply pieces_of_forall
  intro c hc hslash
  rw [beq_iff_eq] at hslash
  exact slash_not_mem_escape token (hslash ▸ hc)

/-- The tokens of a pointer are the texts between its slashes. -/
theorem pieces_flatMap (token : String) (tokens : List String) :
    pieces (· == '/') (escape token ++ tokens.flatMap fun k => '/' :: escape k) =
      escape token :: tokens.map escape := by
  induction tokens generalizing token with
  | nil => simp [pieces_escape]
  | cons k tokens ih =>
    rw [List.flatMap_cons, List.cons_append, pieces_append_cons (by simp), pieces_escape, ih]
    rfl

/-- Tokens that were written are read. -/
theorem tokens?_write (tokens : List String) : tokens? (write tokens) = some tokens := by
  have hmap : ∀ ks : List String,
      (ks.map escape).mapM (fun token => (unescape? token).map String.ofList) = some ks := by
    intro ks
    induction ks with
    | nil => rfl
    | cons k ks ih => simp [ih, unescape?_escape]
  unfold tokens?
  rw [toList_write]
  cases tokens with
  | nil => rfl
  | cons token tokens =>
    rw [List.flatMap_cons, List.cons_append]
    change (pieces (· == '/') _).mapM _ = _
    rw [pieces_flatMap]
    exact hmap (token :: tokens)

theorem write_injective {a b : List String} (h : write a = write b) : a = b := by
  have ha := tokens?_write a
  rw [h, tokens?_write, Option.some.injEq] at ha
  exact ha.symm

theorem at?_write (t : Tree) (tokens : List String) : t.at? (write tokens) = t.follow? tokens := by
  rw [Tree.at?, tokens?_write, Option.bind_some]

/-! ### Indices -/

theorem escape_toString (i : Nat) : escape (toString i) = Nat.toDigits 10 i := by
  rw [escape_eq, toList_toString]
  have hplain : ∀ c ∈ Nat.toDigits 10 i,
      (if c = '~' then ['~', '0'] else if c = '/' then ['~', '1'] else [c]) = [c] := by
    intro c hc
    have hdigit := IsDigits.toDigits i c hc
    have htilde : c ≠ '~' := by
      rintro rfl
      exact absurd hdigit (by decide)
    have hslash : c ≠ '/' := by
      rintro rfl
      exact absurd hdigit (by decide)
    rw [if_neg htilde, if_neg hslash]
  rw [List.flatMap_congr hplain, List.flatMap_singleton']

/-- The path of an item is that of its index as a token. -/
theorem pathTo_toString (path : String) (i : Nat) : path ++ "/" ++ toString i = Violation.pathTo path (toString i) := by
  have h : Violation.pointerStep (toString i) = toString i := by
    rw [← String.toList_inj, toList_toString]
    exact escape_toString i
  rw [Violation.pathTo, h]

theorem index?_toString (i : Nat) : index? (toString i) = some i := by
  rw [index?, toList_toString, numberOf_toDigits, if_pos rfl]

end Pointer

theorem Tree.child?_arr_toString (ts : List Tree) (i : Nat) : (Tree.arr ts).child? (toString i) = ts[i]? := by
  rw [child?, Pointer.index?_toString, Option.bind_some]

namespace Violation

theorem wordIndex?_of_isDigits {ds : List Char} (hdigits : IsDigits ds) (hne : ds ≠ []) :
    wordIndex? ds = if Nat.ofDigitChars 10 ds 0 < Nat.pow 2 64 then some (Nat.ofDigitChars 10 ds 0) else none := by
  have hall : ds.all Char.isDigit = true := List.all_eq_true.mpr hdigits
  have hempty : ds.isEmpty = false := List.isEmpty_eq_false_iff.mpr hne
  have hnumber : ds.foldl (fun n c => n * 10 + (c.toNat - '0'.toNat)) 0 = Nat.ofDigitChars 10 ds 0 := by
    rw [Nat.ofDigitChars_eq_foldl]
    simp only [Nat.mul_comm]
  unfold wordIndex?
  dsimp only
  split
  · -- digits have no sign
    next r =>
    have := hdigits '+' List.mem_cons_self
    exact absurd this (by decide)
  · rw [hall, hempty, hnumber]
    rfl

theorem wordIndex?_toDigits {i : Nat} (h : i < Nat.pow 2 64) : wordIndex? (Nat.toDigits 10 i) = some i := by
  rw [wordIndex?_of_isDigits (IsDigits.toDigits i) Nat.toDigits_ne_nil, Nat.ofDigitChars_ten_toDigits, if_pos h]

theorem stepIndex?_eq_some {v : Violation} {i : Nat} :
    v.stepIndex? = some i ↔
      ∃ rest, v.path.toList = "/steps/".toList ++ rest ∧ wordIndex? (rest.takeWhile (· != '/')) = some i := by
  simp only [stepIndex?, Option.bind_eq_bind, Option.bind_eq_some_iff, dropWord?_eq_some]

/-- The step of a violation is the second token of its path, if the first one is `steps`. -/
theorem stepIndex?_eq_some_iff {v : Violation} {tokens : List String} (hpath : v.path = Pointer.write tokens)
    {i : Nat} :
    v.stepIndex? = some i ↔
      ∃ token rest, tokens = "steps" :: token :: rest ∧ wordIndex? (Pointer.escape token) = some i := by
  have hsteps : "/steps/".toList = '/' :: (Pointer.escape "steps" ++ ['/']) := by decide
  rw [stepIndex?_eq_some, hpath, Pointer.toList_write, hsteps]
  constructor
  · rintro ⟨rest, htext, hindex⟩
    obtain ⟨qs, hpieces⟩ := exists_pieces_eq_cons (· == '/') rest
    cases tokens with
    | nil => cases htext
    | cons token tokens =>
      rw [List.flatMap_cons, List.cons_append, List.cons_append, List.cons.injEq, List.append_assoc,
        List.singleton_append] at htext
      -- cut both texts at their slashes
      have hcut := congrArg (pieces (· == '/')) htext.2
      rw [Pointer.pieces_flatMap, pieces_append_cons (by simp), Pointer.pieces_escape, hpieces, List.singleton_append,
        List.cons.injEq] at hcut
      obtain ⟨hfirst, htail⟩ := hcut
      cases tokens with
      | nil => cases htail
      | cons token' tokens =>
        rw [List.map_cons, List.cons.injEq] at htail
        exact ⟨token', tokens, by rw [Pointer.escape_injective hfirst], by rw [htail.1]; exact hindex⟩
  · rintro ⟨token, rest, rfl, hindex⟩
    refine ⟨Pointer.escape token ++ rest.flatMap fun k => '/' :: Pointer.escape k, by simp, ?_⟩
    obtain ⟨qs, hpieces⟩ := exists_pieces_eq_cons (· == '/')
      (Pointer.escape token ++ rest.flatMap fun k => '/' :: Pointer.escape k)
    rw [Pointer.pieces_flatMap, List.cons.injEq] at hpieces
    have hfirst := hpieces.1
    change Pointer.escape token = List.takeWhile (fun c => c != '/') _ at hfirst
    rw [← hfirst]
    exact hindex

end Violation

end FlowScript
