import FlowScript.CommandLine.Execute
import FlowScript.Proofs.CompileOutcome
import FlowScript.Proofs.DiskChanges

/-!
# What commands leave behind

`Command.runOn` runs a command on a disk.  A workflow that cannot be read or compiled leaves the disk as it was, and one
that is compiled leaves its script and the directories on the way to it (`CompileEffects`).  Validating the same text
comes to the same verdict as far as the schema goes, and lists as many errors (`SameVerdict`).
-/

namespace FlowScript

/-- The lines of an exit that name one error each; they are indented. -/
def Exit.items (e : Exit) : List String := e.err.filter fun line => [' ', ' '].isPrefixOf line.toList

/-- Makes the directory that is to hold the last step of a path, as far as the path names one. -/
def Disk.makeParent (d : Disk) (path : String) : Except FileError Unit × Disk :=
  match Path.parent? path with
  | some dir => if dir = "" then (.ok (), d) else d.makeDirectories dir
  | none => (.ok (), d)

namespace Command

/-- Runs a command on a disk: how it ends, and the disk in the end. -/
def runOn (complaint : Complaint) (c : Command) (d : Disk) : Exit × Disk :=
  Id.run ((c.execute Disk.access complaint).run d)

/-- Where the script of a compiled workflow goes. -/
def target (output : Option String) (outputDir : String) (c : Compiled) : String :=
  output.getD (defaultOutput outputDir c.workflow)

end Command

/-- What compiling a file does to a disk.  `complaint` is what is said about texts that are malformed. -/
structure CompileEffects (complaint : Complaint) (d : Disk) (input : String) (output : Option String)
    (outputDir : String) (run : Exit × Disk) : Prop where
  /-- Nothing is left of a file that cannot be read or compiled. -/
  failed : (∃ e, d.read input = .error e) ∨
    (∃ text ps, d.read input = .ok text ∧ compileText text input Workflow.schema complaint = .error ps) →
    run.1.code = 1 ∧ run.2 = d
  /-- The problems of a text are listed one by one. -/
  itemized : ∀ text ps, d.read input = .ok text → compileText text input Workflow.schema complaint = .error ps →
    run.1.items = ps.map fun p => "  " ++ p.display
  /-- A script that is compiled and can be written is stored. -/
  stored : ∀ text c d₁ d₂, d.read input = .ok text → compileText text input Workflow.schema complaint = .ok c →
    d.makeParent (Command.target output outputDir c) = (.ok (), d₁) →
    d₁.write (Command.target output outputDir c) c.text = .ok d₂ →
    run.1.code = 0 ∧ d.Stores run.2 (Command.target output outputDir c) c.text
  /-- There is success only if the script is stored. -/
  of_success : run.1.code = 0 → ∃ text c, d.read input = .ok text ∧
    compileText text input Workflow.schema complaint = .ok c ∧
    d.Stores run.2 (Command.target output outputDir c) c.text
  /-- Failure leaves no file behind, though perhaps directories on the way to the script.  This rests on the disk, where
  a text is written as a whole or not at all: other file systems may keep part of a text that they fail to write. -/
  of_failure : run.1.code ≠ 0 → run.1.code = 1 ∧ d.OnlyMakes run.2 fun q => ∃ text c, d.read input = .ok text ∧
    compileText text input Workflow.schema complaint = .ok c ∧
    Path.IsAncestor d.current (Command.target output outputDir c) q

/-- Compiling and validating one text: whatever compiles is valid, and what is not valid does not compile, with as many
errors listed. -/
structure SameVerdict (compiled validated : Exit) : Prop where
  valid : compiled.code = 0 → validated.code = 0
  invalid : validated.code = 1 → compiled.code = 1 ∧ compiled.items.length = validated.items.length

/-! ### Exits -/

theorem Exit.items_failure (details : List String) (summary : String) :
    (failure details summary).items = details.map ("  " ++ ·) := by
  have hdetails : (details.map ("  " ++ ·)).filter (fun line => [' ', ' '].isPrefixOf line.toList) =
      details.map ("  " ++ ·) := by
    simp [List.filter_eq_self]
  rw [items, failure, List.filter_append, hdetails, List.filter_cons_of_neg (by simp)]
  simp

theorem Exit.items_problems (input : String) (ps : List Problem) :
    (problems input ps).items = ps.map fun p => "  " ++ p.display := by
  rw [problems, items_failure, List.map_map]
  rfl

/-! ### What a text comes to -/

/-- A text that is malformed is so for both commands. -/
theorem compileText_of_malformed {text : String} {schema : SchemaDocument} {complaint : Complaint} {ps : List Problem}
    (h : validateText text schema complaint = .error ps) (source : String) :
    compileText text source schema complaint = .error ps := by
  unfold validateText at h
  unfold compileText
  cases hread : readDocument text complaint with
  | error qs =>
    rw [hread] at h
    cases h
    rfl
  | ok document =>
    rw [hread] at h
    cases h

theorem compileText_of_violations {text : String} {schema : SchemaDocument} {complaint : Complaint}
    {vs : List Violation} (h : validateText text schema complaint = .ok vs) (hvs : vs ≠ []) (source : String) :
    compileText text source schema complaint = .error (vs.map Violation.problem) := by
  obtain ⟨document, hread, hok⟩ := bind_eq_ok_iff.mp h
  have hvalidate : validate document schema = vs := Except.ok.inj hok
  obtain ⟨v, more, rfl⟩ := List.exists_cons_of_ne_nil hvs
  rw [compileText, hread]
  change compileTree document source schema = _
  rw [compileTree, hvalidate]

/-! ### Storing a script -/

theorem Disk.onlyMakes_makeParent (d : Disk) (path : String) :
    d.OnlyMakes (d.makeParent path).2 (Path.IsAncestor d.current path) := by
  unfold makeParent
  split
  · next dir hdir =>
    split
    · exact .refl d _
    · exact (onlyMakes_makeDirectoriesFrom d dir _).mono fun q hq => (Path.isParent_of_parent? hdir).isAncestor hq
  · exact .refl d _

namespace Command

/-- How storing a script on a disk can go. -/
inductive StoreRun (d : Disk) (path : String) (c : Compiled) : Exit × Disk → Prop where
  | unmade (e : FileError) (d₁ : Disk) : d.makeParent path = (.error e, d₁) →
      StoreRun d path c (.fileFailure "create directory" ((Path.parent? path).getD "") e, d₁)
  | unwritten (e : FileError) (d₁ : Disk) : d.makeParent path = (.ok (), d₁) → d₁.write path c.text = .error e →
      StoreRun d path c (.fileFailure "write" path e, d₁)
  | written (line : String) (d₁ d₂ : Disk) : d.makeParent path = (.ok (), d₁) → d₁.write path c.text = .ok d₂ →
      StoreRun d path c (.success line, d₂)

section

variable {d d₁ d₂ : Disk} {path text : String} {c : Compiled} {run : Exit × Disk}

theorem run_makeDirectories (d : Disk) (path : String) :
    (Disk.access.makeDirectories path).run d = pure (d.makeDirectories path) := rfl

theorem run_write_of_error {e : FileError} (h : d.write path text = .error e) :
    (Disk.access.write path text).run d = pure (.error e, d) := by
  simp only [Disk.access, modifyGet, MonadStateOf.modifyGet, StateT.modifyGet, StateT.run, h]

theorem run_write_of_ok (h : d.write path text = .ok d₁) :
    (Disk.access.write path text).run d = pure (.ok (), d₁) := by
  simp only [Disk.access, modifyGet, MonadStateOf.modifyGet, StateT.modifyGet, StateT.run, h]

/-- Once there is a directory for it, a script is written or not. -/
theorem StoreRun.of_made (hmade : d.makeParent path = (.ok (), d₁))
    (herror : ∀ e, d₁.write path c.text = .error e → run = (.fileFailure "write" path e, d₁))
    (hok : ∀ d₂, d₁.write path c.text = .ok d₂ → ∃ line, run = (.success line, d₂)) : StoreRun d path c run := by
  cases hwrite : d₁.write path c.text with
  | error e =>
    rw [herror e hwrite]
    exact .unwritten e d₁ hmade hwrite
  | ok d₂ =>
    obtain ⟨line, hline⟩ := hok d₂ hwrite
    rw [hline]
    exact .written line d₁ d₂ hmade hwrite

theorem storeRun (d : Disk) (path : String) (c : Compiled) :
    StoreRun d path c (Id.run ((store Disk.access path c).run d)) := by
  -- nothing is made for a path that names no directory, so these cases start to write on the disk as it is
  cases hparent : Path.parent? path with
  | none =>
    have hmade : d.makeParent path = (.ok (), d) := by simp [Disk.makeParent, hparent]
    refine .of_made hmade ?_ ?_
    · intro e hwrite
      simp [store, hparent, run_write_of_error hwrite]
    · intro d₂ hwrite
      simp [store, hparent, run_write_of_ok hwrite]
  | some dir =>
    by_cases hdir : dir = ""
    · have hmade : d.makeParent path = (.ok (), d) := by simp [Disk.makeParent, hparent, hdir]
      refine .of_made hmade ?_ ?_
      · intro e hwrite
        simp [store, hparent, hdir, run_write_of_error hwrite]
      · intro d₂ hwrite
        simp [store, hparent, hdir, run_write_of_ok hwrite]
    · have hmake : d.makeParent path = d.makeDirectories dir := by simp [Disk.makeParent, hparent, hdir]
      cases hdirs : d.makeDirectories dir with
      | mk made d₁ =>
        rw [hdirs] at hmake
        cases made with
        | error e =>
          have hstop := StoreRun.unmade (c := c) e d₁ hmake
          simpa [store, hparent, hdir, run_makeDirectories, hdirs] using hstop
        | ok _ =>
          refine .of_made hmake ?_ ?_
          · intro e hwrite
            simp [store, hparent, hdir, run_makeDirectories, hdirs, run_write_of_error hwrite]
          · intro d₂ hwrite
            simp [store, hparent, hdir, run_makeDirectories, hdirs, run_write_of_ok hwrite]

theorem StoreRun.stores (h : StoreRun d path c run) (hcode : run.1.code = 0) : d.Stores run.2 path c.text := by
  cases h with
  | unmade => cases hcode
  | unwritten => cases hcode
  | written line d₁ d₂ hmade hwrite =>
    have honly := d.onlyMakes_makeParent path
    rw [hmade] at honly
    exact honly.stores hwrite

theorem StoreRun.onlyMakes (h : StoreRun d path c run) (hcode : run.1.code ≠ 0) :
    run.1.code = 1 ∧ d.OnlyMakes run.2 (Path.IsAncestor d.current path) := by
  have honly := d.onlyMakes_makeParent path
  cases h with
  | unmade e d₁ hmade =>
    rw [hmade] at honly
    exact ⟨rfl, honly⟩
  | unwritten e d₁ hmade hwrite =>
    rw [hmade] at honly
    exact ⟨rfl, honly⟩
  | written => exact absurd rfl hcode

theorem StoreRun.code_eq_zero (h : StoreRun d path c run) (hmade : d.makeParent path = (.ok (), d₁))
    (hwrite : d₁.write path c.text = .ok d₂) : run.1.code = 0 := by
  cases h with
  | unmade e d₃ hunmade =>
    rw [hmade] at hunmade
    cases hunmade
  | unwritten e d₃ hmade' hunwritten =>
    rw [hmade] at hmade'
    cases hmade'
    rw [hwrite] at hunwritten
    cases hunwritten
  | written => rfl

end

/-! ### Running commands -/

section

variable {complaint : Complaint} {d : Disk} {input text : String}

theorem runOn_compile_of_unread {e : FileError} (hread : d.read input = .error e) (output : Option String)
    (outputDir : String) : runOn complaint (.compile input output outputDir) d = (.fileFailure "read" input e, d) := by
  simp [runOn, execute, Disk.access, hread]

theorem runOn_compile_of_refused {ps : List Problem} (hread : d.read input = .ok text)
    (hps : compileText text input Workflow.schema complaint = .error ps) (output : Option String) (outputDir : String) :
    runOn complaint (.compile input output outputDir) d = (.problems input ps, d) := by
  simp [runOn, execute, Disk.access, hread, hps]

/-- What is compiled is stored, as far as the disk allows. -/
theorem storeRun_of_compiled {c : Compiled} (hread : d.read input = .ok text)
    (hc : compileText text input Workflow.schema complaint = .ok c) (output : Option String) (outputDir : String) :
    StoreRun d (target output outputDir c) c (runOn complaint (.compile input output outputDir) d) := by
  have hrun : runOn complaint (.compile input output outputDir) d =
      Id.run ((store Disk.access (target output outputDir c) c).run d) := by
    simp [runOn, execute, Disk.access, hread, hc, target]
  rw [hrun]
  exact storeRun d _ c

theorem runOn_validate_of_malformed {ps : List Problem} (hread : d.read input = .ok text)
    (hps : validateText text Workflow.schema complaint = .error ps) :
    runOn complaint (.validate input) d = (.problems input ps, d) := by
  simp [runOn, execute, Disk.access, hread, hps]

theorem runOn_validate_of_valid (hread : d.read input = .ok text)
    (hvs : validateText text Workflow.schema complaint = .ok []) :
    runOn complaint (.validate input) d = (.success (input ++ " is valid"), d) := by
  simp [runOn, execute, Disk.access, hread, hvs]

theorem exists_runOn_validate_of_invalid {vs : List Violation} (hread : d.read input = .ok text)
    (hvs : validateText text Workflow.schema complaint = .ok vs) (hne : vs ≠ []) :
    ∃ summary, runOn complaint (.validate input) d = (.failure (vs.map Violation.display) summary, d) := by
  obtain ⟨v, more, rfl⟩ := List.exists_cons_of_ne_nil hne
  simp [runOn, execute, Disk.access, hread, hvs]

end

section

variable (complaint : Complaint) (d : Disk) (input : String) (output : Option String) (outputDir : String)

theorem exists_stores_of_compile (hcode : (runOn complaint (.compile input output outputDir) d).1.code = 0) :
    ∃ text c, d.read input = .ok text ∧ compileText text input Workflow.schema complaint = .ok c ∧
      d.Stores (runOn complaint (.compile input output outputDir) d).2 (target output outputDir c) c.text := by
  cases hread : d.read input with
  | error e =>
    rw [runOn_compile_of_unread hread] at hcode
    cases hcode
  | ok text =>
    cases hc : compileText text input Workflow.schema complaint with
    | error ps =>
      rw [runOn_compile_of_refused hread hc] at hcode
      cases hcode
    | ok c => exact ⟨text, c, rfl, hc, (storeRun_of_compiled hread hc output outputDir).stores hcode⟩

theorem onlyMakes_of_compile (hcode : (runOn complaint (.compile input output outputDir) d).1.code ≠ 0) :
    (runOn complaint (.compile input output outputDir) d).1.code = 1 ∧
      d.OnlyMakes (runOn complaint (.compile input output outputDir) d).2 fun q => ∃ text c, d.read input = .ok text ∧
        compileText text input Workflow.schema complaint = .ok c ∧
        Path.IsAncestor d.current (target output outputDir c) q := by
  cases hread : d.read input with
  | error e =>
    rw [runOn_compile_of_unread hread]
    exact ⟨rfl, .refl d _⟩
  | ok text =>
    cases hc : compileText text input Workflow.schema complaint with
    | error ps =>
      rw [runOn_compile_of_refused hread hc]
      exact ⟨rfl, .refl d _⟩
    | ok c =>
      obtain ⟨hone, honly⟩ := (storeRun_of_compiled hread hc output outputDir).onlyMakes hcode
      exact ⟨hone, honly.mono fun q hq => ⟨text, c, rfl, hc, hq⟩⟩

theorem compileEffects :
    CompileEffects complaint d input output outputDir (runOn complaint (.compile input output outputDir) d) where
  failed := by
    rintro (⟨e, hread⟩ | ⟨text, ps, hread, hps⟩)
    · rw [runOn_compile_of_unread hread]
      exact ⟨rfl, rfl⟩
    · rw [runOn_compile_of_refused hread hps]
      exact ⟨rfl, rfl⟩
  itemized := by
    intro text ps hread hps
    rw [runOn_compile_of_refused hread hps]
    exact Exit.items_problems input ps
  stored := by
    intro text c d₁ d₂ hread hc hmade hwrite
    have hrun := storeRun_of_compiled hread hc output outputDir
    have hcode := hrun.code_eq_zero hmade hwrite
    exact ⟨hcode, hrun.stores hcode⟩
  of_success := exists_stores_of_compile complaint d input output outputDir
  of_failure := onlyMakes_of_compile complaint d input output outputDir

end

/-- Both commands read the same text, from whatever files. -/
theorem sameVerdict (complaint : Complaint) {d d₁ : Disk} {input input₁ text : String}
    (hread : d.read input = .ok text) (hread₁ : d₁.read input₁ = .ok text) (output : Option String)
    (outputDir : String) :
    SameVerdict (runOn complaint (.compile input output outputDir) d).1 (runOn complaint (.validate input₁) d₁).1 := by
  cases hv : validateText text Workflow.schema complaint with
  | error ps =>
    rw [runOn_compile_of_refused hread (compileText_of_malformed hv input), runOn_validate_of_malformed hread₁ hv]
    refine ⟨by simp [Exit.problems, Exit.failure], fun _ => ⟨rfl, ?_⟩⟩
    simp only [Exit.items_problems]
  | ok vs =>
    by_cases hvs : vs = []
    · subst hvs
      rw [runOn_validate_of_valid hread₁ hv]
      exact ⟨fun _ => rfl, by simp [Exit.success]⟩
    · obtain ⟨summary, hrun⟩ := exists_runOn_validate_of_invalid hread₁ hv hvs
      rw [hrun, runOn_compile_of_refused hread (compileText_of_violations hv hvs input)]
      refine ⟨by simp [Exit.problems, Exit.failure], fun _ => ⟨rfl, ?_⟩⟩
      simp [Exit.items_problems, Exit.items_failure]

end Command

/-- Compiling leaves the disk as it was unless it comes as far as storing the script, which changes nothing but the
script and the directories on the way to it; and it comes to the same verdict as validating the same text. -/
theorem compile_effects_and_verdict (complaint : Complaint) (d : Disk) (input : String) (output : Option String)
    (outputDir : String) :
    CompileEffects complaint d input output outputDir
      (Command.runOn complaint (.compile input output outputDir) d) ∧
    ∀ d₁ input₁ text, d.read input = .ok text → d₁.read input₁ = .ok text →
      SameVerdict (Command.runOn complaint (.compile input output outputDir) d).1
        (Command.runOn complaint (.validate input₁) d₁).1 := by
  refine ⟨Command.compileEffects complaint d input output outputDir, ?_⟩
  intro d₁ input₁ text hread hread₁
  exact Command.sameVerdict complaint hread hread₁ output outputDir

/-- A workflow with a single step. -/
def oneClick : String := "name: a\nsteps:\n- name: b\n  action: click\n  selector: c\n"

def oneClickTree : Tree := .obj [
  ("name", .str "a"),
  ("steps", .arr [.obj [("action", .str "click"), ("name", .str "b"), ("selector", .str "c")]])]

/-- A disk with this workflow alone. -/
def oneClickDisk : Disk where
  entries := [(["w"], .directory), (["w", "f.yaml"], .file oneClick.toUTF8.toList)]
  current := ["w"]

theorem read_oneClickDisk : oneClickDisk.read "f.yaml" = .ok oneClick := by
  have hread : (oneClickDisk.read "f.yaml").toOption = some oneClick := by decide +kernel
  cases h : oneClickDisk.read "f.yaml" with
  | error e =>
    rw [h] at hread
    cases hread
  | ok text =>
    rw [h] at hread
    rw [Option.some.inj hread]

theorem exists_compileText_oneClick (complaint : Complaint) :
    ∃ text, compileText oneClick "f.yaml" Workflow.schema complaint = .ok ⟨"a", 1, text⟩ := by
  have hdocument : readDocument oneClick complaint = .ok oneClickTree := by
    have hyaml : Tree.ofYaml? oneClick = some oneClickTree := by decide +kernel
    rw [readDocument, hyaml]
  have hv : validate oneClickTree = [] := SchemaDocument.check_eq_nil.mpr (by decide +kernel)
  obtain ⟨name, steps, hname, hsteps, -, houtcome⟩ := CompileOutcome.of_accepted hv "f.yaml"
  cases hname
  cases hsteps
  rw [compileText, hdocument]
  change ∃ text, compileTree oneClickTree "f.yaml" = _
  generalize compileTree oneClickTree "f.yaml" = result at houtcome
  cases houtcome with
  | unread p hreal =>
    obtain ⟨v, hmem, x, hx⟩ := hreal
    obtain rfl := List.mem_singleton.mp hmem
    cases hx
  | refused ps _ hne => exact absurd rfl hne
  | compiled text => exact ⟨text, rfl⟩

theorem target_oneClick (text : String) : Command.target none "out/x" ⟨"a", 1, text⟩ = "out/x/a.js" := by
  have hout : defaultOutput "out/x" "a" = "out/x/a.js" := by decide +kernel
  rw [Command.target, Option.getD_none, hout]

theorem compile_effects_and_verdict_oneClick :
    oneClickDisk.read "f.yaml" = .ok oneClick ∧
    (Command.runOn .silent (.compile "f.yaml" none "out/x") oneClickDisk).1.code = 0 ∧
    (∃ text, oneClickDisk.Stores (Command.runOn .silent (.compile "f.yaml" none "out/x") oneClickDisk).2
      "out/x/a.js" text) ∧
    (Command.runOn .silent (.validate "f.yaml") oneClickDisk).1.code = 0 := by
  obtain ⟨text, hc⟩ := exists_compileText_oneClick .silent
  obtain ⟨heffects, hverdict⟩ := compile_effects_and_verdict .silent oneClickDisk "f.yaml" none "out/x"
  have hmade : oneClickDisk.makeParent "out/x/a.js" =
      (.ok (), (oneClickDisk.put ["w", "out"] .directory).put ["w", "out", "x"] .directory) := by rfl
  have hwrite : ((oneClickDisk.put ["w", "out"] .directory).put ["w", "out", "x"] .directory).write "out/x/a.js" text =
      .ok (((oneClickDisk.put ["w", "out"] .directory).put ["w", "out", "x"] .directory).put
        ["w", "out", "x", "a.js"] (.file text.toUTF8.toList)) := by rfl
  have hstored := heffects.stored oneClick ⟨"a", 1, text⟩
  rw [target_oneClick] at hstored
  obtain ⟨hcode, hstores⟩ := hstored _ _ read_oneClickDisk hc hmade hwrite
  have hsame := hverdict oneClickDisk "f.yaml" oneClick read_oneClickDisk read_oneClickDisk
  exact ⟨read_oneClickDisk, hcode, ⟨text, hstores⟩, hsame.valid hcode⟩

end FlowScript
