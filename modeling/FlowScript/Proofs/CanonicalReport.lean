import FlowScript.Proofs.ByteOrder
import FlowScript.Proofs.CompactText
import FlowScript.Proofs.Findings

/-!
# Canonical reports

A report is sorted by the bytes of path, keyword and message (`le_eq_true_iff`), and equal neighbours are dropped.  Two
violations that a check finds at one path are about the same part of the tree, so their keyword and message also fix
their parameters (`params_eq_of_about`): the limit, the options or the name can be read off the message.  Hence a
report has each violation once, in strictly ascending order, and depends on nothing but the set of violations found.
-/

namespace FlowScript

namespace Violation

/-- What reports are sorted by. -/
def sortKey (v : Violation) : List (List UInt8) := [bytes v.path, bytes v.keyword, bytes v.message]

theorem sortKey_inj {v w : Violation} :
    v.sortKey = w.sortKey ↔ v.path = w.path ∧ v.keyword = w.keyword ∧ v.message = w.message := by
  constructor
  · intro h
    simp only [sortKey, List.cons.injEq, and_true] at h
    exact ⟨bytes_injective h.1, bytes_injective h.2.1, bytes_injective h.2.2⟩
  · rintro ⟨hpath, hkeyword, hmessage⟩
    rw [sortKey, sortKey, hpath, hkeyword, hmessage]

theorem sortKey_lt_iff {v w : Violation} :
    v.sortKey < w.sortKey ↔
      v.path < w.path ∨
        v.path = w.path ∧ (v.keyword < w.keyword ∨ v.keyword = w.keyword ∧ v.message < w.message) := by
  have bytes_inj : ∀ {s t : String}, bytes s = bytes t ↔ s = t := ⟨bytes_injective, congrArg bytes⟩
  simp only [sortKey, List.cons_lt_cons_iff, bytes_lt_iff, bytes_inj, List.lt_irrefl, and_false, or_false]

private theorem lt_iff_not_lt_of_ne {s t : String} (h : s ≠ t) : s < t ↔ ¬t < s := by
  constructor
  · exact String.lt_asymm
  · intro hts
    apply String.not_le.mp
    intro hle
    exact h (String.le_antisymm (String.not_lt.mp hts) hle)

theorem le_eq_true_iff {v w : Violation} : v.le w = true ↔ v.sortKey ≤ w.sortKey := by
  change _ ↔ ¬w.sortKey < v.sortKey
  rw [sortKey_lt_iff, le]
  by_cases hpath : v.path = w.path
  · by_cases hkeyword : v.keyword = w.keyword
    · simp only [hpath, hkeyword, ne_eq, not_true_eq_false, if_false, decide_eq_true_eq, String.lt_irrefl, true_and,
        false_or]
      exact String.not_lt.symm
    · simp only [hpath, hkeyword, Ne.symm hkeyword, ne_eq, not_true_eq_false, not_false_eq_true, if_false, if_true,
        decide_eq_true_eq, String.lt_irrefl, true_and, false_and, or_false, false_or, lt_iff_not_lt_of_ne hkeyword]
  · simp only [hpath, Ne.symm hpath, ne_eq, not_false_eq_true, if_true, decide_eq_true_eq, false_and, or_false,
      lt_iff_not_lt_of_ne hpath]

/-! ### Sorting and dropping repeats -/

/-- A list of violations in which the sort key names the violation. -/
def Keyed (vs : List Violation) : Prop := ∀ v ∈ vs, ∀ w ∈ vs, v.sortKey = w.sortKey → v = w

def Ascending (vs : List Violation) : Prop := vs.Pairwise fun v w => v.sortKey < w.sortKey

theorem Keyed.of_subset {vs ws : List Violation} (hkeyed : Keyed vs) (h : ∀ v ∈ ws, v ∈ vs) : Keyed ws :=
  fun v hv w hw => hkeyed v (h v hv) w (h w hw)

theorem Keyed.ascending_dropRepeats {vs : List Violation} (hkeyed : Keyed vs)
    (hsorted : vs.Pairwise fun v w => v.sortKey ≤ w.sortKey) : Ascending (dropRepeats vs) := by
  fun_induction dropRepeats vs with
  | case1 a r ih => exact ih (hkeyed.of_subset fun v hv => List.mem_cons_of_mem a hv) hsorted.tail
  | case2 a b r hne ih =>
    obtain ⟨hhead, htail⟩ := List.pairwise_cons.mp hsorted
    -- the head is strictly before its neighbour, and the neighbour is not after any other
    have hlt : a.sortKey < b.sortKey := by
      apply Std.lt_of_le_of_ne (hhead b List.mem_cons_self)
      intro heq
      exact hne (hkeyed a List.mem_cons_self b (List.mem_cons_of_mem a List.mem_cons_self) heq)
    refine List.pairwise_cons.mpr ⟨?_, ih (hkeyed.of_subset fun v hv => List.mem_cons_of_mem a hv) htail⟩
    intro w hw
    rcases List.mem_cons.mp (mem_dropRepeats.mp hw) with rfl | hw
    · exact hlt
    · exact Std.lt_of_lt_of_le hlt ((List.pairwise_cons.mp htail).1 w hw)
  | case3 l hl =>
    cases l with
    | nil => exact .nil
    | cons a l =>
      cases l with
      | nil => exact List.pairwise_singleton _ a
      | cons b r => exact absurd rfl (hl a b r)

theorem pairwise_mergeSort (vs : List Violation) :
    (vs.mergeSort le).Pairwise fun v w => v.sortKey ≤ w.sortKey := by
  have hsorted : (vs.mergeSort le).Pairwise fun v w => v.le w = true := by
    apply List.pairwise_mergeSort
    · intro a b c hab hbc
      exact le_eq_true_iff.mpr (List.le_trans (le_eq_true_iff.mp hab) (le_eq_true_iff.mp hbc))
    · intro a b
      rw [Bool.or_eq_true, le_eq_true_iff, le_eq_true_iff]
      exact List.le_total _ _
  exact hsorted.imp le_eq_true_iff.mp

theorem Keyed.ascending_report {vs : List Violation} (hkeyed : Keyed vs) : Ascending (report vs) := by
  apply Keyed.ascending_dropRepeats _ (pairwise_mergeSort vs)
  exact hkeyed.of_subset fun v hv => List.mem_mergeSort.mp hv

theorem Ascending.nodup {vs : List Violation} (h : Ascending vs) : vs.Nodup := by
  refine h.imp ?_
  rintro v _ hlt rfl
  exact List.lt_irrefl _ hlt

/-- An ascending list is fixed by its members. -/
theorem Ascending.eq_of_mem_iff {vs ws : List Violation} (hv : Ascending vs) (hw : Ascending ws)
    (h : ∀ v, v ∈ vs ↔ v ∈ ws) : vs = ws := by
  refine List.Perm.eq_of_pairwise ?_ hv hw ((List.perm_ext_iff_of_nodup hv.nodup hw.nodup).mpr h)
  intro v w _ _ hvw hwv
  exact absurd hwv (List.lt_asymm hvw)

/-! ### Messages -/

theorem amount_injective {m n : Nat} {thing : String} (h : amount m thing = amount n thing) : m = n := by
  have hlist := congrArg (fun s => splitWhile (isDigitIn 10) s.toList) h
  simp only [amount, String.toList_append, toList_toString, List.append_assoc] at hlist
  -- the digits end at the blank
  rw [(IsDigits.toDigits m).splitWhile_append _ (by simp; decide),
    (IsDigits.toDigits n).splitWhile_append _ (by simp; decide)] at hlist
  exact toDigits_injective (Prod.mk.inj hlist).1

theorem missing_message_injective {path path' name name' : String}
    (h : (missing path name).message = (missing path' name').message) : name = name' := by
  have hlist := congrArg String.toList h
  simp only [missing, String.toList_append] at hlist
  exact (Json.quote_append_inj hlist).1

theorem notAnOption_message_injective {path path' : String} {u : Tree} {options options' : List Tree}
    (h : (notAnOption path u options).message = (notAnOption path' u options').message) : options = options' :=
  Tree.arr.inj (Tree.compact_injective ((String.append_right_inj _).mp h))

theorem head?_forbidden (path label : String) (u : Tree) :
    (forbidden path label u).message.toList.head? = some 'F' := by
  rw [forbidden, String.toList_append]
  rfl

/-- Only a message about a tree that is not allowed begins with this letter: no text of a tree does. -/
theorem params_eq_noParams {u : Tree} {v : Violation} (hv : v.About u) (h : v.message.toList.head? = some 'F') :
    v.params = noParams := by
  have compact_ne : ∀ (t : Tree) (rest : List Char), (t.compact.toList ++ rest).head? ≠ some 'F' := by
    intro t rest hhead
    obtain ⟨tail, htail⟩ := List.head?_eq_some_iff.mp hhead
    exact Tree.compact_append_ne_cons (by decide) rest tail htail
  cases hv with
  | missing path name =>
    rw [missing, String.toList_append] at h
    exact absurd h (compact_ne (.str name) _)
  | tooShort path limit =>
    rw [tooShort, String.toList_append, String.toList_append, List.append_assoc] at h
    exact absurd h (compact_ne u _)
  | tooFew path limit =>
    rw [tooFew, String.toList_append, String.toList_append, List.append_assoc] at h
    exact absurd h (compact_ne u _)
  | notAnOption path options =>
    rw [notAnOption, String.toList_append, String.toList_append, List.append_assoc] at h
    exact absurd h (compact_ne u _)
  | _ => rfl

/-- Keyword and message of a violation fix its parameters, once it is known which part of the tree it is about. -/
theorem params_eq_of_about {u : Tree} {v w : Violation} (hv : v.About u) (hw : w.About u)
    (hkeyword : v.keyword = w.keyword) (hmessage : v.message = w.message) : v.params = w.params := by
  by_cases hallowed : v.message.toList.head? = some 'F'
  · rw [params_eq_noParams hv hallowed, params_eq_noParams hw (hmessage ▸ hallowed)]
  · cases hv with
    | missing path name =>
      cases hw with
      | missing path' name' => rw [missing, missing, missing_message_injective hmessage]
      | forbidden path' label => exact absurd (hmessage ▸ head?_forbidden path' label u) hallowed
      | _ => simp [missing, wrongKind, wrongKinds, tooShort, tooFew, tooSmall, notAnOption, notConst] at hkeyword
    | tooShort path limit =>
      cases hw with
      | tooShort path' limit' => rw [tooShort, tooShort, amount_injective ((String.append_right_inj _).mp hmessage)]
      | forbidden path' label => exact absurd (hmessage ▸ head?_forbidden path' label u) hallowed
      | _ => simp [missing, wrongKind, wrongKinds, tooShort, tooFew, tooSmall, notAnOption, notConst] at hkeyword
    | tooFew path limit =>
      cases hw with
      | tooFew path' limit' => rw [tooFew, tooFew, amount_injective ((String.append_right_inj _).mp hmessage)]
      | forbidden path' label => exact absurd (hmessage ▸ head?_forbidden path' label u) hallowed
      | _ => simp [missing, wrongKind, wrongKinds, tooShort, tooFew, tooSmall, notAnOption, notConst] at hkeyword
    | notAnOption path options =>
      cases hw with
      | notAnOption path' options' => rw [notAnOption, notAnOption, notAnOption_message_injective hmessage]
      | forbidden path' label => exact absurd (hmessage ▸ head?_forbidden path' label u) hallowed
      | _ => simp [missing, wrongKind, wrongKinds, tooShort, tooFew, tooSmall, notAnOption, notConst] at hkeyword
    | forbidden path label => exact absurd (head?_forbidden path label u) hallowed
    | _ =>
      -- the other violations have no parameters
      cases hw with
      | missing path' name => simp [missing, wrongKind, wrongKinds, tooSmall, notConst] at hkeyword
      | tooShort path' limit => simp [tooShort, wrongKind, wrongKinds, tooSmall, notConst] at hkeyword
      | tooFew path' limit => simp [tooFew, wrongKind, wrongKinds, tooSmall, notConst] at hkeyword
      | notAnOption path' options => simp [notAnOption, wrongKind, wrongKinds, tooSmall, notConst] at hkeyword
      | _ => rfl

end Violation

namespace SchemaDocument

theorem keyed_violations (d : SchemaDocument) (t : Tree) : Violation.Keyed (d.violations t) := by
  intro v hv w hw hkey
  obtain ⟨hpath, hkeyword, hmessage⟩ := Violation.sortKey_inj.mp hkey
  obtain ⟨rest, u, hvpath, hfollow, hv⟩ := found_of_mem_violations hv
  obtain ⟨rest', u', hwpath, hfollow', hw⟩ := found_of_mem_violations hw
  -- one path leads to one part of the tree
  have hrest : rest = rest' := Pointer.write_injective (hvpath.symm.trans (hpath.trans hwpath))
  rw [hrest, hfollow', Option.some.injEq] at hfollow
  subst hfollow
  have hparams : v.params = w.params := Violation.params_eq_of_about hv hw hkeyword hmessage
  cases v
  cases w
  cases hpath
  cases hkeyword
  cases hmessage
  cases hparams
  rfl

theorem mem_check {d : SchemaDocument} {t : Tree} {v : Violation} : v ∈ d.check t ↔ v ∈ d.violations t :=
  Violation.mem_report

theorem ascending_check (d : SchemaDocument) (t : Tree) : Violation.Ascending (d.check t) :=
  (d.keyed_violations t).ascending_report

/-- A report is strictly ascending in the bytes of path, keyword and message, so that no two of its violations agree in
all three; it has the violations that are found and no others; and any list of the same violations, in any order, gives
the same report. -/
theorem check_canonical (d : SchemaDocument) (t : Tree) :
    ((d.check t).Pairwise fun v w => v.sortKey < w.sortKey) ∧
    ((d.check t).map fun v => (v.path, v.keyword, v.message)).Nodup ∧
    (∀ v, v ∈ d.check t ↔ v ∈ d.violations t) ∧
    ∀ found : List Violation, (∀ v, v ∈ found ↔ v ∈ d.violations t) → Violation.report found = d.check t := by
  refine ⟨d.ascending_check t, ?_, fun v => mem_check, ?_⟩
  · rw [List.Nodup, List.pairwise_map]
    refine (d.ascending_check t).imp ?_
    intro v w hlt heq
    simp only [Prod.mk.injEq] at heq
    rw [Violation.sortKey_inj.mpr heq] at hlt
    exact List.lt_irrefl _ hlt
  · intro found hfound
    have hkeyed : Violation.Keyed found := (d.keyed_violations t).of_subset fun v hv => (hfound v).mp hv
    refine hkeyed.ascending_report.eq_of_mem_iff (d.ascending_check t) ?_
    intro v
    rw [Violation.mem_report, mem_check, hfound]

/-- Two fields are missing, and one of them is asked for twice. -/
theorem check_canonical_repeated :
    (∀ v, v ∈ [Violation.missing "" "a", Violation.missing "" "b"] ↔
      v ∈ (SchemaDocument.mk (.rules [.required ["b", "a", "b"]]) []).violations (.obj [])) ∧
    Violation.report [Violation.missing "" "a", Violation.missing "" "b"] =
      (SchemaDocument.mk (.rules [.required ["b", "a", "b"]]) []).check (.obj []) := by
  have hfound : ∀ v, v ∈ [Violation.missing "" "a", Violation.missing "" "b"] ↔
      v ∈ (SchemaDocument.mk (.rules [.required ["b", "a", "b"]]) []).violations (.obj []) := by
    intro v
    change _ ↔ v ∈ [Violation.missing "" "b", Violation.missing "" "a", Violation.missing "" "b"]
    simp only [List.mem_cons, List.not_mem_nil, or_false]
    tauto
  exact ⟨hfound, (check_canonical _ _).2.2.2 _ hfound⟩

end SchemaDocument

end FlowScript
