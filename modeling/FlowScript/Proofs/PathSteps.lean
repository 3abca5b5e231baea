import FlowScript.CommandLine.Disk
import Mathlib.Data.List.Basic

/-!
# Steps of paths

A path can be cut at every slash (`Path.stepsFrom_append_slash`) and after every one of its steps
(`Path.exists_of_stepsFrom_eq`).  So the parent of a path is the front part of its text that has all its steps but the
last one (`Path.isParent_of_parent?`).  `Path.place` says where a path leads when its steps are followed one by one, with
`..` for one place up.
-/

namespace FlowScript

namespace Path

/-- Where a step leads from a place. -/
def follow (p : Place) (step : String) : Place :=
  if step = "." then p else if step = ".." then p.dropLast else p ++ [step]

/-- Where the steps of a path begin. -/
def origin (current : Place) (path : String) : Place := if isAbsolute path then [] else current

/-- Where a path leads, seen from the current directory. -/
def place (current : Place) (path : String) : Place := (walk path).foldl follow (origin current path)

/-- Whether a path begins at the root, and the steps of it that count.  Two paths are the same if these are. -/
def components (path : String) : Bool × List String := (isAbsolute path, (steps path).map fun s => String.ofList s.1)

/-! ### Cutting a path -/

variable {n : Nat} {word cs : List Char}

theorem stepsFrom_append_slash (n : Nat) (word front back : List Char) :
    stepsFrom n word (front ++ '/' :: back) = stepsFrom n word front ++ stepsFrom (n + front.length + 1) [] back := by
  induction front generalizing n word with
  | nil => simp [stepsFrom]
  | cons c front ih =>
    rw [List.cons_append, stepsFrom, stepsFrom]
    split
    · rw [ih, List.append_assoc, List.length_cons]
      congr 3
      omega
    · rw [ih, List.length_cons]
      congr 2
      omega

/-- A text without slashes is one step. -/
theorem stepsFrom_of_not_mem (hslash : '/' ∉ cs) (hne : word ++ cs ≠ []) :
    stepsFrom n word cs = [(word.reverse ++ cs, n + cs.length)] := by
  induction cs generalizing n word with
  | nil =>
    have hword : word ≠ [] := by simpa using hne
    simp [stepsFrom, hword]
  | cons c cs ih =>
    rw [List.mem_cons, not_or] at hslash
    rw [stepsFrom, if_neg (Ne.symm hslash.1), ih hslash.2 (by simp), List.length_cons]
    simp
    omega

/-- Where a text stands does not change which steps it has. -/
theorem map_fst_stepsFrom (n m : Nat) (word cs : List Char) :
    (stepsFrom n word cs).map Prod.fst = (stepsFrom m word cs).map Prod.fst := by
  induction cs generalizing n m word with
  | nil =>
    unfold stepsFrom
    split <;> rfl
  | cons c cs ih =>
    rw [stepsFrom, stepsFrom]
    split
    · rw [List.map_append, List.map_append, ih (n + 1) (m + 1)]
      split <;> rfl
    · exact ih _ _ _

/-- A text can be cut after each of its steps. -/
theorem exists_of_stepsFrom_eq {before after : List (List Char × Nat)} {step : List Char × Nat}
    (h : stepsFrom n word cs = before ++ step :: after) :
    ∃ front back, cs = front ++ back ∧ step.2 = n + front.length ∧ stepsFrom n word front = before ++ [step] ∧
      stepsFrom step.2 [] back = after := by
  induction cs generalizing n word before with
  | nil =>
    by_cases hword : word = []
    · simp [stepsFrom, hword] at h
    · have hstep : [(word.reverse, n)] = before ++ step :: after := by simpa [stepsFrom, hword] using h
      cases before with
      | nil =>
        obtain ⟨rfl, rfl⟩ := List.cons.inj hstep
        exact ⟨[], [], rfl, rfl, by simp [stepsFrom, hword], rfl⟩
      | cons s before => simp at hstep
  | cons c cs ih =>
    by_cases hc : c = '/'
    · subst hc
      by_cases hword : word = []
      · subst hword
        have hrest : stepsFrom (n + 1) [] cs = before ++ step :: after := by simpa [stepsFrom] using h
        obtain ⟨front, back, rfl, hn, hfront, hback⟩ := ih hrest
        refine ⟨'/' :: front, back, rfl, ?_, ?_, hback⟩
        · rw [List.length_cons]
          omega
        · simpa [stepsFrom] using hfront
      · have hstep : (word.reverse, n) :: stepsFrom (n + 1) [] cs = before ++ step :: after := by
          simpa [stepsFrom, hword] using h
        cases before with
        | nil =>
          obtain ⟨rfl, rfl⟩ := List.cons.inj hstep
          exact ⟨[], '/' :: cs, rfl, rfl, by simp [stepsFrom, hword], by simp [stepsFrom]⟩
        | cons s before =>
          obtain ⟨rfl, hrest⟩ := List.cons.inj hstep
          obtain ⟨front, back, rfl, hn, hfront, hback⟩ := ih hrest
          refine ⟨'/' :: front, back, rfl, ?_, ?_, hback⟩
          · rw [List.length_cons]
            omega
          · simpa [stepsFrom, hword] using hfront
    · rw [stepsFrom, if_neg hc] at h
      obtain ⟨front, back, rfl, hn, hfront, hback⟩ := ih h
      refine ⟨c :: front, back, rfl, ?_, ?_, hback⟩
      · rw [List.length_cons]
        omega
      · rwa [stepsFrom, if_neg hc]

theorem map_walk (n : Nat) (path : String) :
    (stepsFrom n [] path.toList).map (fun s => String.ofList s.1) = walk path := by
  have h := congrArg (List.map String.ofList) (map_fst_stepsFrom n 0 [] path.toList)
  simpa [walk, Function.comp_def] using h

theorem isAbsolute_append {front : String} (h : front ≠ "") (back : String) :
    isAbsolute (front ++ back) = isAbsolute front := by
  unfold isAbsolute
  have hne : front.toList ≠ [] := by simpa using h
  rw [String.toList_append, List.head?_append_of_ne_nil _ hne]

/-- The slash at the front of an absolute path is no step. -/
theorem exists_of_isAbsolute {path : String} (h : isAbsolute path = true) :
    ∃ rest : String, path = "/" ++ rest ∧ walk path = walk rest := by
  rw [isAbsolute, beq_iff_eq] at h
  have hpath : path.toList = '/' :: path.toList.tail := (List.cons_head?_tail h).symm
  refine ⟨String.ofList path.toList.tail, ?_, ?_⟩
  · rw [← String.toList_inj, hpath]
    simp
  · rw [← map_walk 1 (String.ofList path.toList.tail), walk, String.toList_ofList]
    conv => lhs; rw [hpath]
    simp [stepsFrom]

/-- A path can be cut after each of its steps that count. -/
theorem exists_of_steps_eq {path : String} {before after : List (List Char × Nat)} {step : List Char × Nat}
    (h : steps path = before ++ step :: after) :
    ∃ front back : String, path = front ++ back ∧ step.2 = front.toList.length ∧ front ≠ "" ∧
      steps front = before ++ [step] ∧ walk path = walk front ++ walk back ∧
      (stepsFrom step.2 [] back.toList).filter counts = after := by
  obtain ⟨l₁, l₂, hsplit, rfl, hafter⟩ := List.filter_eq_append_iff.mp h
  obtain ⟨m₁, m₂, rfl, hm₁, hstep, rfl⟩ := List.filter_eq_cons_iff.mp hafter
  rw [← List.append_assoc] at hsplit
  obtain ⟨front, back, hpath, hn, hfront, hback⟩ := exists_of_stepsFrom_eq hsplit
  have hm₁ : m₁.filter counts = [] := by simpa using hm₁
  refine ⟨String.ofList front, String.ofList back, ?_, ?_, ?_, ?_, ?_, ?_⟩
  · rw [← String.ofList_append, ← hpath, String.ofList_toList]
  · simpa using hn
  · rintro hempty
    have hnil : front = [] := by simpa using hempty
    rw [hnil, stepsFrom] at hfront
    simp at hfront
  · simp [steps, hfront, hm₁, hstep]
  · rw [walk, hsplit, List.append_cons, ← hfront, ← hback, List.map_append, ← map_walk step.2 (String.ofList back)]
    simp [walk]
  · rw [String.toList_ofList, hback]

/-! ### Parents -/

/-- The parent of a path is the front part of its text that has all its steps but the last one. -/
structure IsParent (above path : String) : Prop where
  steps_eq : steps above = (steps path).dropLast
  isAbsolute_eq : isAbsolute above = isAbsolute path
  exists_rest : ∃ rest, path = above ++ rest ∧ walk path = walk above ++ walk rest ∧ walk rest ≠ []

theorem walk_ne_nil {n : Nat} {path : String} (h : (stepsFrom n [] path.toList).filter counts ≠ []) :
    walk path ≠ [] := by
  rw [← map_walk n]
  intro hnil
  rw [List.map_eq_nil_iff] at hnil
  simp [hnil] at h

theorem isParent_root {path : String} {step : List Char × Nat} (h : steps path = [step])
    (habsolute : isAbsolute path = true) : IsParent "/" path := by
  obtain ⟨rest, hpath, hwalk⟩ := exists_of_isAbsolute habsolute
  refine ⟨by rw [h]; rfl, by rw [habsolute]; rfl, rest, hpath, hwalk, ?_⟩
  rw [← hwalk]
  exact walk_ne_nil (n := 0) (by rw [← steps, h]; simp)

theorem isParent_empty {path : String} {step : List Char × Nat} (h : steps path = [step])
    (habsolute : isAbsolute path = false) : IsParent "" path := by
  refine ⟨by rw [h]; rfl, by rw [habsolute]; rfl, path, by simp, rfl, ?_⟩
  exact walk_ne_nil (n := 0) (by rw [← steps, h]; simp)

theorem isParent_front {path : String} {before : List (List Char × Nat)} {step last : List Char × Nat}
    (h : steps path = before ++ [step, last]) : IsParent (String.ofList (path.toList.take step.2)) path := by
  obtain ⟨front, back, rfl, hn, hne, hfront, hwalk, hback⟩ := exists_of_steps_eq h
  have htake : String.ofList ((front ++ back).toList.take step.2) = front := by
    rw [hn, String.toList_append, List.take_left, String.ofList_toList]
  rw [htake]
  refine ⟨?_, (isAbsolute_append hne back).symm, back, rfl, hwalk, ?_⟩
  · rw [hfront, h]
    simp
  · exact walk_ne_nil (n := step.2) (by rw [hback]; simp)

/-- A path with a step has a parent. -/
theorem exists_parent? {path : String} (h : steps path ≠ []) :
    ∃ above, parent? path = some above ∧ IsParent above path := by
  unfold parent?
  split
  · next hnil => exact absurd (List.reverse_eq_nil_iff.mp hnil) h
  · next step hstep =>
    have hsteps : steps path = [step] := by rw [← List.reverse_reverse (steps path), hstep]; rfl
    refine ⟨_, rfl, ?_⟩
    cases habsolute : isAbsolute path with
    | true => exact isParent_root hsteps habsolute
    | false => exact isParent_empty hsteps habsolute
  · next last step n more hmore =>
    have hsteps : steps path = more.reverse ++ [(step, n), last] := by
      rw [← List.reverse_reverse (steps path), hmore]
      simp
    exact ⟨_, rfl, isParent_front hsteps⟩

theorem isParent_of_parent? {above path : String} (h : parent? path = some above) : IsParent above path := by
  have hne : steps path ≠ [] := by
    intro hnil
    simp [parent?, hnil] at h
  obtain ⟨above', h', hparent⟩ := exists_parent? hne
  rw [h] at h'
  rwa [Option.some.inj h']

end Path

end FlowScript
