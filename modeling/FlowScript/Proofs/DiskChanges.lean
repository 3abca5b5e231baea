import FlowScript.Proofs.Decoding
import FlowScript.Proofs.PathSteps

/-!
# What changes on a disk

Following a path on a disk goes through the places that the path names, and each of them but the last must be a directory
(`Disk.enter_of_locateParent`).  So making directories changes nothing but missing places on the way (`Disk.OnlyMakes`),
and storing a text leaves the file, the directories on the way to it, and everything else as it was (`Disk.Stores`).
-/

namespace FlowScript

namespace Path

/-- A place that a path goes through, or leads to. -/
def IsOnWay (current : Place) (path : String) (q : Place) : Prop :=
  ∃ before after, walk path = before ++ after ∧ q = before.foldl follow (origin current path)

/-- A place that a path goes through before its last step. -/
def IsAncestor (current : Place) (path : String) (q : Place) : Prop :=
  ∃ before step after, walk path = before ++ step :: after ∧ q = before.foldl follow (origin current path)

theorem isOnWay_place (current : Place) (path : String) : IsOnWay current path (place current path) :=
  ⟨walk path, [], by simp, rfl⟩

variable {above path : String} {current q : Place}

theorem IsParent.origin_eq (h : IsParent above path) (current : Place) : origin current above = origin current path := by
  rw [origin, origin, h.isAbsolute_eq]

/-- The way to the parent of a path is part of the way to its last step. -/
theorem IsParent.isAncestor (h : IsParent above path) (hq : IsOnWay current above q) : IsAncestor current path q := by
  obtain ⟨rest, -, hwalk, hne⟩ := h.exists_rest
  obtain ⟨before, after, habove, rfl⟩ := hq
  obtain ⟨step, more, hmore⟩ := List.exists_cons_of_ne_nil (l := after ++ walk rest) (by simp [hne])
  refine ⟨before, step, more, ?_, by rw [h.origin_eq]⟩
  rw [hwalk, habove, List.append_assoc, hmore]

theorem IsAncestor.isOnWay (h : IsAncestor current path q) : IsOnWay current path q := by
  obtain ⟨before, step, after, hwalk, rfl⟩ := h
  exact ⟨before, step :: after, hwalk, rfl⟩

end Path

namespace Disk

/-! ### Entries -/

theorem lookup_filter_ne {p q : Place} (h : q ≠ p) (entries : List (Place × Entry)) :
    (entries.filter fun x => x.1 ≠ p).lookup q = entries.lookup q := by
  induction entries with
  | nil => rfl
  | cons x entries ih =>
    obtain ⟨r, e⟩ := x
    by_cases hr : r = p
    · subst hr
      have hne : (q == r) = false := by simpa using h
      rw [List.filter_cons_of_neg (by simp), ih, List.lookup_cons, hne]
    · rw [List.filter_cons_of_pos (by simpa using hr), List.lookup_cons, List.lookup_cons, ih]

theorem entry?_put {d : Disk} {p : Place} (hp : p ≠ []) (e : Entry) (q : Place) :
    Disk.entry? (d.put p e) q = if q = p then some e else d.entry? q := by
  by_cases hq : q = p
  · subst hq
    simp [put, entry?, hp]
  · have hne : (q == p) = false := by simpa using hq
    rw [if_neg hq, entry?, entry?, put, List.lookup_cons, hne]
    simp only [lookup_filter_ne hq]

/-! ### Following a path -/

variable {d d' : Disk} {p q : Place} {step path : String}

theorem enter_eq_ok (h : d.enter p step = .ok q) : d.entry? p = some .directory ∧ q = Path.follow p step := by
  unfold enter at h
  unfold Path.follow
  split at h
  · cases h
  next hdir =>
    refine ⟨by simpa using hdir, ?_⟩
    split at h
    · next hdot =>
      cases h
      rw [if_pos hdot]
    next hdot =>
      split at h
      · next hup =>
        cases h
        rw [if_neg hdot, if_pos hup]
      next hup =>
        split at h
        · cases h
        · cases h
          rw [if_neg hdot, if_neg hup]

theorem enterExisting_eq_ok (h : d.enterExisting p step = .ok q) :
    d.entry? p = some .directory ∧ q = Path.follow p step := by
  rw [enterExisting, bind_eq_ok_iff] at h
  obtain ⟨r, hr, h⟩ := h
  split at h
  · cases h
    exact enter_eq_ok hr
  · cases h

/-- Each place from which a step was taken is a directory. -/
theorem foldlM_enterExisting {steps : List String} (h : steps.foldlM d.enterExisting p = .ok q) :
    q = steps.foldl Path.follow p ∧
      ∀ before step after, steps = before ++ step :: after → d.entry? (before.foldl Path.follow p) = some .directory := by
  induction steps generalizing p with
  | nil =>
    cases h
    exact ⟨rfl, by simp⟩
  | cons s steps ih =>
    rw [List.foldlM_cons, bind_eq_ok_iff] at h
    obtain ⟨r, hr, h⟩ := h
    obtain ⟨hdir, rfl⟩ := enterExisting_eq_ok hr
    obtain ⟨hq, hsteps⟩ := ih h
    refine ⟨hq, ?_⟩
    intro before step after hsplit
    cases before with
    | nil => exact hdir
    | cons b before =>
      obtain ⟨rfl, hrest⟩ := List.cons.inj hsplit
      exact hsteps before step after hrest

/-- The last step of a path leads to the place of the path, through directories. -/
theorem enter_of_locateParent (h : d.locateParent path = .ok (p, some step)) (hq : d.enter p step = .ok q) :
    q = Path.place d.current path ∧ ∀ r, Path.IsAncestor d.current path r → d.entry? r = some .directory := by
  rw [locateParent, bind_eq_ok_iff] at h
  obtain ⟨-, -, h⟩ := h
  rw [bind_eq_ok_iff] at h
  obtain ⟨r, hfold, h⟩ := h
  obtain ⟨rfl, hlast⟩ := Prod.mk.inj (Except.ok.inj h)
  obtain ⟨hr, hsteps⟩ := foldlM_enterExisting hfold
  obtain ⟨hdir, rfl⟩ := enter_eq_ok hq
  obtain ⟨front, hfront⟩ := List.getLast?_eq_some_iff.mp hlast
  rw [hfront, List.dropLast_concat] at hr hsteps
  refine ⟨?_, ?_⟩
  · rw [Path.place, hfront, List.foldl_append, hr]
    rfl
  · rintro _ ⟨before, s, after, hwalk, rfl⟩
    rw [hfront] at hwalk
    rcases List.eq_nil_or_concat after with rfl | ⟨more, t, rfl⟩
    · have hbefore : front = before := List.append_inj_left' hwalk rfl
      subst hbefore
      rw [hr] at hdir
      exact hdir
    · have hsplit : front ++ [step] = (before ++ s :: more) ++ [t] := by simpa using hwalk
      exact hsteps before s more (List.append_inj_left' hsplit rfl)

/-! ### Making directories -/

/-- Nothing has changed but that directories were made at some places where there was nothing. -/
structure OnlyMakes (d d' : Disk) (places : Place → Prop) : Prop where
  current_eq : d'.current = d.current
  entry?_cases : ∀ q, d'.entry? q = d.entry? q ∨ d.entry? q = none ∧ d'.entry? q = some .directory ∧ places q

namespace OnlyMakes

variable {places more : Place → Prop}

theorem refl (d : Disk) (places : Place → Prop) : OnlyMakes d d places := ⟨rfl, fun _ => .inl rfl⟩

theorem trans {d'' : Disk} (h : OnlyMakes d d' places) (h' : OnlyMakes d' d'' places) : OnlyMakes d d'' places := by
  refine ⟨h'.current_eq.trans h.current_eq, ?_⟩
  intro q
  rcases h'.entry?_cases q with heq | ⟨hnone, hmade, hq⟩
  · rw [heq]
    exact h.entry?_cases q
  · -- what was made first is no longer missing
    rcases h.entry?_cases q with heq | ⟨-, hmade', -⟩
    · rw [← heq]
      exact .inr ⟨hnone, hmade, hq⟩
    · rw [hmade'] at hnone
      cases hnone

theorem mono (h : OnlyMakes d d' places) (hplaces : ∀ q, places q → more q) : OnlyMakes d d' more := by
  refine ⟨h.current_eq, ?_⟩
  intro q
  rcases h.entry?_cases q with heq | ⟨hnone, hmade, hq⟩
  · exact .inl heq
  · exact .inr ⟨hnone, hmade, hplaces q hq⟩

end OnlyMakes

theorem makeDirectory_eq_ok (h : d.makeDirectory path = .ok d') :
    d.entry? (Path.place d.current path) = none ∧ d' = d.put (Path.place d.current path) .directory := by
  rw [makeDirectory, bind_eq_ok_iff] at h
  obtain ⟨⟨p, last⟩, hparent, h⟩ := h
  cases last with
  | none => cases h
  | some step =>
    obtain ⟨q, hq, h⟩ := bind_eq_ok_iff.mp h
    obtain ⟨rfl, -⟩ := enter_of_locateParent hparent hq
    split at h
    · cases h
    · next hnone =>
      cases h
      exact ⟨by simpa using hnone, rfl⟩

theorem onlyMakes_makeDirectory (h : d.makeDirectory path = .ok d') :
    OnlyMakes d d' (Path.IsOnWay d.current path) := by
  obtain ⟨hnone, rfl⟩ := makeDirectory_eq_ok h
  have hroot : Path.place d.current path ≠ [] := by
    intro hroot
    rw [hroot] at hnone
    cases hnone
  refine ⟨rfl, ?_⟩
  intro q
  rw [entry?_put hroot]
  by_cases hq : q = Path.place d.current path
  · subst hq
    exact .inr ⟨hnone, if_pos rfl, Path.isOnWay_place d.current path⟩
  · exact .inl (if_neg hq)

/-- Making directories, whether it succeeds or not, makes missing places on the way and changes nothing else. -/
theorem onlyMakes_makeDirectoriesFrom (d : Disk) (path : String) (fuel : Nat) :
    OnlyMakes d (d.makeDirectoriesFrom path fuel).2 (Path.IsOnWay d.current path) := by
  induction fuel generalizing path with
  | zero => exact .refl d _
  | succ fuel ih =>
    unfold makeDirectoriesFrom
    split
    · exact .refl d _
    · split
      · next hmade => exact onlyMakes_makeDirectory hmade
      · split
        · exact .refl d _
        · next above habove =>
          have hway : ∀ q, Path.IsOnWay d.current above q → Path.IsOnWay d.current path q :=
            fun q hq => ((Path.isParent_of_parent? habove).isAncestor hq).isOnWay
          have hfirst := (ih above).mono hway
          split
          · next heq =>
            rw [heq] at hfirst
            exact hfirst
          · next d₁ heq =>
            rw [heq] at hfirst
            split
            · next d₂ hmade =>
              have hsecond := onlyMakes_makeDirectory hmade
              rw [hfirst.current_eq] at hsecond
              exact hfirst.trans hsecond
            · exact hfirst
      · exact .refl d _

/-! ### Storing a text -/

/-- The disk before and after a text was stored under a path: the text is where the path leads, there are directories
all the way to it, and apart from those that were missing nothing else has changed. -/
structure Stores (d d' : Disk) (path text : String) : Prop where
  current_eq : d'.current = d.current
  text_eq : d'.entry? (Path.place d.current path) = some (.file text.toUTF8.toList)
  ancestors_eq : ∀ q, Path.IsAncestor d.current path q → d'.entry? q = some .directory
  others_eq : ∀ q, q ≠ Path.place d.current path → ¬(Path.IsAncestor d.current path q ∧ d.entry? q = none) →
    d'.entry? q = d.entry? q

theorem write_eq_ok {text : String} (h : d.write path text = .ok d') :
    d.entry? (Path.place d.current path) ≠ some .directory ∧
      (∀ r, Path.IsAncestor d.current path r → d.entry? r = some .directory) ∧
      d' = d.put (Path.place d.current path) (.file text.toUTF8.toList) := by
  rw [write, bind_eq_ok_iff] at h
  obtain ⟨⟨p, last⟩, hparent, h⟩ := h
  cases last with
  | none => cases h
  | some step =>
    simp only at h
    split at h
    · cases h
    · obtain ⟨q, hq, h⟩ := bind_eq_ok_iff.mp h
      obtain ⟨rfl, hancestors⟩ := enter_of_locateParent hparent hq
      split at h
      · cases h
      · next hfile =>
        cases h
        exact ⟨hfile, hancestors, rfl⟩

/-- A text that is written after missing directories were made is stored. -/
theorem OnlyMakes.stores {d₁ d₂ : Disk} {text : String} (hmade : OnlyMakes d d₁ (Path.IsAncestor d.current path))
    (hwritten : d₁.write path text = .ok d₂) : Stores d d₂ path text := by
  obtain ⟨hfile, hancestors, rfl⟩ := write_eq_ok hwritten
  rw [hmade.current_eq] at hfile hancestors ⊢
  have hroot : Path.place d.current path ≠ [] := by
    intro hroot
    rw [hroot] at hfile
    exact hfile rfl
  refine ⟨hmade.current_eq, ?_, ?_, ?_⟩
  · rw [entry?_put hroot, if_pos rfl]
  · intro q hq
    have hne : q ≠ Path.place d.current path := by
      rintro rfl
      exact hfile (hancestors _ hq)
    rw [entry?_put hroot, if_neg hne]
    exact hancestors q hq
  · intro q hne hq
    rw [entry?_put hroot, if_neg hne]
    rcases hmade.entry?_cases q with heq | ⟨hnone, -, hancestor⟩
    · exact heq
    · exact absurd ⟨hancestor, hnone⟩ hq

end Disk

end FlowScript
