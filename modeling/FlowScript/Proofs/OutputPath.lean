import FlowScript.Compile
import FlowScript.Proofs.PathSteps

/-!
# Where scripts go by default

The name of a workflow can be any text, also an absolute path or one that climbs.  The name of its script is always a
single step (`FileNameOf`), and the path of the script is the output directory with that step at its end
(`Path.IsEntryOf`): it leads to an entry of the directory, and its parent is the directory.
-/

namespace FlowScript

/-! ### File names -/

/-- A file name that keeps the characters of a text, except separators and blanks. -/
structure FileNameOf (name file : String) : Prop where
  suffix : ['.', 'j', 's'] <:+ file.toList
  /-- It has neither separators nor blanks. -/
  plain : ∀ c ∈ file.toList, c ≠ '/' ∧ c ≠ '\\' ∧ isBlank c = false
  ne_dot : file ≠ "."
  ne_dotDot : file ≠ ".."
  length_eq : file.length = name.length + 3
  keeps : ∀ (i : Nat) (c : Char), name.toList[i]? = some c → c ≠ '/' → c ≠ '\\' → isBlank c = false →
    file.toList[i]? = some c

theorem toList_fileName (name : String) : (fileName name).toList = name.toList.map fileChar ++ ['.', 'j', 's'] := by
  rw [fileName, String.toList_append, String.toList_ofList]
  rfl

theorem fileChar_plain (c : Char) : fileChar c ≠ '/' ∧ fileChar c ≠ '\\' ∧ isBlank (fileChar c) = false := by
  unfold fileChar
  split
  · decide
  · next h => simpa using h

theorem fileNameOf_fileName (name : String) : FileNameOf name (fileName name) where
  suffix := by
    rw [toList_fileName]
    exact List.suffix_append _ _
  plain := by
    intro c hc
    rw [toList_fileName, List.mem_append, List.mem_map] at hc
    rcases hc with ⟨d, -, rfl⟩ | hc
    · exact fileChar_plain d
    · simp only [List.mem_cons, List.not_mem_nil, or_false] at hc
      rcases hc with rfl | rfl | rfl <;> decide
  ne_dot := by
    intro h
    have hlength := congrArg (List.length ∘ String.toList) h
    simp [toList_fileName] at hlength
  ne_dotDot := by
    intro h
    have hlength := congrArg (List.length ∘ String.toList) h
    simp [toList_fileName] at hlength
  length_eq := by
    rw [← String.length_toList, ← String.length_toList, toList_fileName]
    simp
  keeps := by
    intro i c hc hslash hbackslash hblank
    have hi : i < (name.toList.map fileChar).length := by
      rw [List.length_map]
      exact (List.getElem?_eq_some_iff.mp hc).1
    rw [toList_fileName, List.getElem?_append_left hi, List.getElem?_map, hc]
    simp [fileChar, hslash, hbackslash, hblank]

/-! ### Entries of a directory -/

namespace Path

/-- A path to an entry of a directory. -/
structure IsEntryOf (dir file path : String) : Prop where
  text_eq : path = dir ++ file ∧ (dir = "" ∨ endsWithSlash dir = true) ∨ path = dir ++ "/" ++ file
  components_eq : components path = ((components dir).1, (components dir).2 ++ [file])
  /-- Seen from anywhere, it leads to an entry of the place where the directory is. -/
  place_eq : ∀ current, place current path = place current dir ++ [file]
  /-- Its parent is the directory, whose text may go on with slashes and dots that do not count. -/
  parent : ∃ above rest, parent? path = some above ∧ components above = components dir ∧
    dir = above ++ rest ∧ ∀ step ∈ walk rest, step = "."

variable {dir file : String}

theorem isAbsolute_of_not_mem (hslash : '/' ∉ file.toList) : isAbsolute file = false := by
  have hhead : file.toList.head? ≠ some '/' := fun h => hslash (List.mem_of_mem_head? h)
  simpa [isAbsolute] using hhead

/-- Before a text without slashes the directory is not lost, since the text is no absolute path. -/
theorem join_of_not_mem (dir : String) (hslash : '/' ∉ file.toList) :
    join dir file = if dir = "" ∨ endsWithSlash dir then dir ++ file else dir ++ "/" ++ file := by
  rw [join, if_neg (by simp [isAbsolute_of_not_mem hslash])]

theorem stepsFrom_join (dir : String) (hslash : '/' ∉ file.toList) (hne : file ≠ "") :
    ∃ n, stepsFrom 0 [] (join dir file).toList = stepsFrom 0 [] dir.toList ++ [(file.toList, n)] := by
  have hfile : ∀ n, stepsFrom n [] file.toList = [(file.toList, n + file.toList.length)] :=
    fun n => stepsFrom_of_not_mem hslash (by simpa using hne)
  rw [join_of_not_mem dir hslash]
  split
  · next h =>
    rcases h with rfl | hlast
    · exact ⟨_, by simpa [stepsFrom] using hfile 0⟩
    · -- the slash at the end of the directory ends its last step
      rw [endsWithSlash, beq_iff_eq] at hlast
      obtain ⟨front, hfront⟩ := List.getLast?_eq_some_iff.mp hlast
      have hdir : stepsFrom 0 [] dir.toList = stepsFrom 0 [] front := by
        rw [hfront, stepsFrom_append_slash]
        simp [stepsFrom]
      refine ⟨0 + front.length + 1 + file.toList.length, ?_⟩
      rw [hdir, String.toList_append, hfront, List.append_assoc, List.singleton_append, stepsFrom_append_slash, hfile]
  · have htext : (dir ++ "/" ++ file).toList = dir.toList ++ '/' :: file.toList := by simp
    refine ⟨0 + dir.toList.length + 1 + file.toList.length, ?_⟩
    rw [htext, stepsFrom_append_slash, hfile]

theorem isAbsolute_join (dir : String) (hslash : '/' ∉ file.toList) :
    isAbsolute (join dir file) = isAbsolute dir := by
  rw [join_of_not_mem dir hslash]
  by_cases hdir : dir = ""
  · subst hdir
    simpa [isAbsolute] using isAbsolute_of_not_mem hslash
  · split
    · exact isAbsolute_append hdir file
    · rw [String.append_assoc]
      exact isAbsolute_append hdir ("/" ++ file)

/-- Steps that do not count are dots. -/
theorem eq_dot_of_mem_walk {n : Nat} {path step : String} (h : (stepsFrom n [] path.toList).filter counts = [])
    (hstep : step ∈ walk path) : step = "." := by
  rw [← map_walk n, List.mem_map] at hstep
  obtain ⟨s, hs, rfl⟩ := hstep
  have hcounts : ¬counts s = true := List.filter_eq_nil_iff.mp h s hs
  have hdot : s.1 = ['.'] := by
    simp only [counts, Bool.or_eq_true, decide_eq_true_eq, not_or, Decidable.not_not] at hcounts
    exact hcounts.1
  rw [hdot]

/-- The parent of a path that has one step more than the path it begins with. -/
theorem parent?_of_steps {path more : String} {last : List Char × Nat} (hpath : path = dir ++ more)
    (habsolute : isAbsolute path = isAbsolute dir) (hsteps : steps path = steps dir ++ [last]) :
    ∃ above rest, parent? path = some above ∧ dir = above ++ rest ∧ ∀ step ∈ walk rest, step = "." := by
  rcases List.eq_nil_or_concat (steps dir) with hnil | ⟨before, step, hdir⟩
  · have hdots : ∀ step ∈ walk dir, step = "." := fun step hstep => eq_dot_of_mem_walk (n := 0) hnil hstep
    have hparent : parent? path = some (if isAbsolute dir then "/" else "") := by
      simp [parent?, hsteps, hnil, habsolute]
    cases hroot : isAbsolute dir with
    | true =>
      obtain ⟨rest, hrest, hwalk⟩ := exists_of_isAbsolute hroot
      rw [hwalk] at hdots
      exact ⟨"/", rest, by simpa [hroot] using hparent, hrest, hdots⟩
    | false => exact ⟨"", dir, by simpa [hroot] using hparent, by simp, hdots⟩
  · rw [List.concat_eq_append] at hdir
    obtain ⟨front, back, rfl, hn, -, -, -, hback⟩ := exists_of_steps_eq hdir
    have hparent : parent? path = some front := by
      rw [parent?, hsteps, hdir]
      simp [hpath, hn, String.append_assoc]
    exact ⟨front, back, hparent, rfl, fun step hstep => eq_dot_of_mem_walk hback hstep⟩

/-- A single step after a directory makes a path to an entry of it. -/
theorem isEntryOf_join (hslash : '/' ∉ file.toList) (hne : file ≠ "") (hdot : file ≠ ".") (hdotDot : file ≠ "..") :
    IsEntryOf dir file (join dir file) := by
  obtain ⟨n, hstepsFrom⟩ := stepsFrom_join dir hslash hne
  have habsolute := isAbsolute_join dir hslash
  have hwalk : walk (join dir file) = walk dir ++ [file] := by simp [walk, hstepsFrom]
  have hcounts : counts (file.toList, n) = true := by
    have hlist : file.toList ≠ ['.'] := fun h => hdot (String.toList_inj.mp h)
    simp [counts, hlist]
  have hsteps : steps (join dir file) = steps dir ++ [(file.toList, n)] := by
    simp [steps, hstepsFrom, hcounts]
  have htext : ∃ more, join dir file = dir ++ more := by
    rw [join_of_not_mem dir hslash]
    split
    · exact ⟨_, rfl⟩
    · exact ⟨"/" ++ file, by rw [String.append_assoc]⟩
  refine ⟨?_, ?_, ?_, ?_⟩
  · rw [join_of_not_mem dir hslash]
    split
    · next h => exact .inl ⟨rfl, h⟩
    · exact .inr rfl
  · simp [components, habsolute, hsteps]
  · intro current
    rw [place, place, hwalk, List.foldl_append, origin, habsolute]
    simp [follow, hdot, hdotDot, origin]
  · obtain ⟨more, hmore⟩ := htext
    obtain ⟨above, rest, hparent, hrest, hdots⟩ := parent?_of_steps hmore habsolute hsteps
    have habove := isParent_of_parent? hparent
    refine ⟨above, rest, hparent, ?_, hrest, hdots⟩
    simp [components, habove.isAbsolute_eq, habove.steps_eq, habsolute, hsteps]

end Path

/-- Whatever a workflow is called, its script is an entry of the output directory, under a name that keeps the
characters of the workflow's name except separators and blanks. -/
theorem defaultOutput_isEntryOf (dir name : String) :
    ∃ file, FileNameOf name file ∧ Path.IsEntryOf dir file (defaultOutput dir name) := by
  have hfile := fileNameOf_fileName name
  have hslash : '/' ∉ (fileName name).toList := fun h => (hfile.plain '/' h).1 rfl
  have hne : fileName name ≠ "" := by
    intro h
    have hlength := hfile.length_eq
    rw [h] at hlength
    simp at hlength
  exact ⟨fileName name, hfile, Path.isEntryOf_join hslash hne hfile.ne_dot hfile.ne_dotDot⟩

end FlowScript
