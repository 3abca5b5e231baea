import FlowScript.Proofs.Digits
import FlowScript.Proofs.Lowering
import FlowScript.Proofs.ScriptScanner
import FlowScript.Proofs.WorkflowGrammar
import FlowScript.Script.Record

/-!
# Texts of a step do not change its record

A record is code and literals.  `Call.record` is the code, with empty literals: it knows which call the step makes,
and whether there are an output key and a hint, but none of the step's texts.  `Step.literals` lists the texts in the
order in which a record has them.  `Task.scan?_edits` reads a record of any step without clause and code of its own:
its code is the one of the call, and its literals are the texts of the step.
-/

namespace FlowScript

/-! ### Code that comes from a step -/

theorem plain_of_isDigit {cs : List Char} (h : ∀ c ∈ cs, c.isDigit = true) : Plain (String.ofList cs) :=
  .of_forall h (by decide) (by decide)

theorem plain_toString_nat (n : Nat) : Plain (toString n) := by
  rw [Nat.toString_eq_ofList_toDigits]
  exact plain_of_isDigit (IsDigits.toDigits n)

theorem plain_toString_int (n : Int) : Plain (toString n) := by
  cases n with
  | ofNat n => exact plain_toString_nat n
  | negSucc n => exact .append (s := "-") (by decide) (plain_toString_nat (n + 1))

namespace Decimal

theorem plain_zeros (n : Nat) : Plain (zeros n) :=
  .of_forall (fun _ hc => List.eq_of_mem_replicate hc) (by decide) (by decide)

variable {digits : List Char}

theorem plain_positional (h : ∀ c ∈ digits, c.isDigit = true) (exponent : Int) :
    Plain (positional digits exponent) := by
  unfold positional
  dsimp only
  split
  · exact (Plain.append (by decide) (plain_zeros _)).append (plain_of_isDigit h)
  · have htake := plain_of_isDigit fun c hc => h c (List.mem_of_mem_take (i := exponent.toNat + 1) hc)
    have hdrop := plain_of_isDigit fun c hc => h c (List.mem_of_mem_drop (i := exponent.toNat + 1) hc)
    refine ((htake.append (plain_zeros _)).append (by decide)).append ?_
    split
    · decide
    · exact hdrop

theorem plain_scientific (h : ∀ c ∈ digits, c.isDigit = true) (exponent : Int) :
    Plain (scientific digits exponent) := by
  have htake := plain_of_isDigit fun c hc => h c (List.mem_of_mem_take (i := 1) hc)
  have hdrop := plain_of_isDigit fun c hc => h c (List.mem_of_mem_drop (i := 1) hc)
  unfold scientific
  dsimp only
  refine (((htake.append ?_).append (by decide)).append ?_).append (plain_toString_nat _)
  · split
    · decide
    · exact Plain.append (by decide) hdrop
  · split <;> decide

end Decimal

theorem Number.plain_text (x : Number) : Plain x.text := by
  cases x with
  | int n => exact plain_toString_int n
  | real y =>
    refine Plain.append ?_ ?_
    · split <;> decide
    · split
      · decide
      · unfold Decimal.DoubleFormat.write
        dsimp only
        split
        · exact Decimal.plain_positional (IsDigits.toDigits _) _
        · exact Decimal.plain_scientific (IsDigits.toDigits _) _

theorem Reference.plain_text {r : Reference} (h : IsName r.identifier) : Plain r.text := by
  refine (Plain.append ?_ (by decide)).append ?_
  · cases r.scope <;> decide
  · rw [← String.ofList_toList (s := r.identifier)]
    exact .of_forall (fun _ hc => h.isIdentifierChar_of_mem hc) (by decide) (by decide)

/-! ### Arguments -/

/-- The text of a workflow that a literal stands for. -/
def Literal.spelling? : Literal → Option String
  | quoted s => some s
  | template t => (TemplateLiteral.parts? t.texts t.holes).map Part.render

namespace Expr

/-- The code that an expression is written as, if it is not written as a literal. -/
def bare? : Expr → Option String
  | literal (.str _) | template _ => none
  | literal v => some v.compact
  | ref r => some r.text

/-- The literal that an expression is written as, if it is one. -/
def literal? : Expr → Option Literal
  | literal (.str s) => some (.quoted s)
  | template ps => some (.template ⟨Part.texts ps, Part.names ps⟩)
  | literal _ | ref _ => none

theorem scans_ofText (raw : String) :
    Scans (Script.value (ofText raw)) ((ofText raw).bare?.getD Literal.mark) (ofText raw).literal?.toList := by
  rcases ofText_cases raw with ⟨-, htext⟩ | ⟨r, hname, -, htext⟩ | ⟨-, -, htext, -⟩ <;> rw [htext]
  · exact .quote raw
  · exact .plain (Reference.plain_text hname)
  · exact .template (Part.canonical_split raw)

/-- The literal of a text stands for the text. -/
theorem spelling?_of_literal? {raw : String} {l : Literal} (h : (ofText raw).literal? = some l) :
    l.spelling? = some raw := by
  rcases ofText_cases raw with ⟨-, htext⟩ | ⟨r, hname, -, htext⟩ | ⟨-, -, htext, -⟩ <;> rw [htext] at h <;> cases h
  · rfl
  · rw [Literal.spelling?, Part.parts?_texts (Part.canonical_split raw), Option.map_some, Part.render_split]

end Expr

theorem Action.scans_fillValue {v : Tree} (h : v.IsScalar) :
    Scans (Script.value (fillValue v)) ((fillValue v).bare?.getD Literal.mark) (fillValue v).literal?.toList := by
  rcases h with ⟨raw, rfl⟩ | ⟨x, rfl⟩ | ⟨b, rfl⟩
  · exact Expr.scans_ofText raw
  · exact .plain x.plain_text
  · cases b <;> exact .plain (by decide)

/-! ### Records without texts -/

/-- What a step does with the page, as far as it is code: `none` stands for an argument that is a literal. -/
inductive Call where
  | navigate (url : Option String)
  | fill (value : Option String)
  | click
  | press
  | wait (milliseconds : Nat)
deriving DecidableEq

namespace Call

def hasSelector : Call → Bool
  | navigate _ => false
  | fill _ | click | press | wait _ => true

open Literal (mark)

/-- The statements of a call, with empty literals. -/
def edits : Call → List Edit
  | navigate url => [
      .line ("await page.goto(" ++ url.getD mark ++ ");"),
      .line ("await page.waitForLoadState(" ++ mark ++ ");")]
  | fill value => [.line ("await page.fill(" ++ mark ++ ", " ++ value.getD mark ++ ");")]
  | click => [.line ("await page.click(" ++ mark ++ ");")]
  | press => [.line ("await page.press(" ++ mark ++ ", " ++ mark ++ ");")]
  | wait milliseconds => [
      .line ("await page.waitForSelector(" ++ mark ++ ", \x7b timeout: " ++ toString milliseconds ++ " \x7d);")]

def property (key : String) : Edit := .line (key ++ ": " ++ mark ++ ",")

def property? (key : String) (present : Bool) : List Edit := if present then [property key] else []

/-- The record of a call, with empty literals. -/
def record (c : Call) (output hint last : Bool) : List Edit :=
  [.opening "\x7b", property "name", property "action"] ++
    property? "selector" c.hasSelector ++
    [.block "execute: async () =>"] ++ c.edits ++ [.closing "\x7d,"] ++
    property? "output" output ++ property? "hint" hint ++
    [.closing (if last then "\x7d" else "\x7d,")]

end Call

namespace Step

/-- The call that a step makes, if its action is known and calls the page itself. -/
def call? (s : Step) : Option Call :=
  match s.action with
  | "navigate" => s.url.map fun url => .navigate (Expr.ofText url).bare?
  | "fill" => s.value.map fun value => .fill (Action.fillValue value).bare?
  | "click" => some .click
  | "press" => some .press
  | "wait" => some (.wait (s.timeout.getD Action.defaultWait))
  | _ => none

def quoted? (text : Option String) : List Literal := (text.map .quoted).toList

/-- The selector, unless the action has none. -/
def ownSelector? (s : Step) : Option String := if s.action = "navigate" then none else s.selector

/-- The literals among the arguments of the call. -/
def arguments (s : Step) : List Literal :=
  match s.action with
  | "navigate" => (s.url.bind fun url => (Expr.ofText url).literal?).toList ++ [.quoted "domcontentloaded"]
  | "fill" => quoted? s.selector ++ (s.value.bind fun value => (Action.fillValue value).literal?).toList
  | "press" => quoted? s.selector ++ quoted? s.key
  | _ => quoted? s.selector

/-- The texts of a step in the order in which its record has them. -/
def literals (s : Step) : List Literal :=
  [.quoted s.name, .quoted s.action] ++ quoted? s.ownSelector? ++ s.arguments ++ quoted? s.output ++ quoted? s.hint

end Step

/-! ### The record of a step -/

theorem Lays.property {key : String} (hkey : Plain key) (text : String) :
    Lays [Task.property key text] [Call.property key] [.quoted text] :=
  .line (.within (hkey.append (by decide)) (.quote text) (by decide))

theorem Lays.property? {key : String} (hkey : Plain key) (text : Option String) :
    Lays (Task.property? key text) (Call.property? key text.isSome) (Step.quoted? text) := by
  cases text with
  | none => exact .nil
  | some text => exact .property hkey text

namespace Action

open Literal (mark)

theorem lays_navigate (url : String) :
    Lays (navigate (Expr.ofText url)).edits (Call.navigate (Expr.ofText url).bare?).edits
      ((Expr.ofText url).literal?.toList ++ [.quoted "domcontentloaded"]) := by
  have hgoto : Scans ("await page.goto(" ++ Script.value (Expr.ofText url) ++ ");")
      ("await page.goto(" ++ (Expr.ofText url).bare?.getD mark ++ ");") (Expr.ofText url).literal?.toList :=
    .within (by decide) (Expr.scans_ofText url) (by decide)
  have htext : "await page.waitForLoadState(\"domcontentloaded\");" =
      "await page.waitForLoadState(" ++ Script.quote "domcontentloaded" ++ ");" := by decide +kernel
  have hload : Scans "await page.waitForLoadState(\"domcontentloaded\");"
      ("await page.waitForLoadState(" ++ mark ++ ");") [.quoted "domcontentloaded"] := by
    rw [htext]
    exact .within (by decide) (.quote "domcontentloaded") (by decide)
  exact (Lays.line hgoto).append (.line hload)

theorem lays_fill (selector : String) {value : Tree} (h : value.IsScalar) :
    Lays (fill selector (fillValue value)).edits (Call.fill (fillValue value).bare?).edits
      (.quoted selector :: (fillValue value).literal?.toList) := by
  have hselector : Scans ("await page.fill(" ++ Script.quote selector ++ ", ") ("await page.fill(" ++ mark ++ ", ")
      [.quoted selector] := .within (by decide) (.quote selector) (by decide)
  exact .line ((hselector.append (scans_fillValue h)).append_plain (by decide))

theorem lays_click (selector : String) : Lays (click selector).edits Call.click.edits [.quoted selector] :=
  .line (.within (by decide) (.quote selector) (by decide))

theorem lays_press (selector key : String) :
    Lays (press selector key).edits Call.press.edits [.quoted selector, .quoted key] := by
  have hselector : Scans ("await page.press(" ++ Script.quote selector ++ ", ") ("await page.press(" ++ mark ++ ", ")
      [.quoted selector] := .within (by decide) (.quote selector) (by decide)
  exact .line ((hselector.append (.quote key)).append_plain (by decide))

theorem lays_wait (selector : String) (milliseconds : Nat) :
    Lays (wait selector milliseconds).edits (Call.wait milliseconds).edits [.quoted selector] := by
  have hselector : Scans ("await page.waitForSelector(" ++ Script.quote selector ++ ", \x7b timeout: ")
      ("await page.waitForSelector(" ++ mark ++ ", \x7b timeout: ") [.quoted selector] :=
    .within (by decide) (.quote selector) (by decide)
  exact .line ((hselector.append_plain (plain_toString_nat milliseconds)).append_plain (by decide))

end Action

/-- The statements of a step's action are those of its call, with the literals among the arguments in them. -/
theorem Step.lays_action {s : Step} {a : Action} (haction : s.action ≠ "playwright_code")
    (hvalue : ∀ v, s.value = some v → v.IsScalar) (h : s.HasAction a) :
    ∃ call, s.call? = some call ∧ call.hasSelector = s.ownSelector?.isSome ∧ Lays a.edits call.edits s.arguments := by
  cases h with
  | @navigate url hs hurl =>
    refine ⟨.navigate (Expr.ofText url).bare?, by simp [call?, hs, hurl],
      by simp [ownSelector?, hs, Call.hasSelector], ?_⟩
    have hargs : s.arguments = (Expr.ofText url).literal?.toList ++ [.quoted "domcontentloaded"] := by
      simp [arguments, hs, hurl]
    rw [hargs]
    exact Action.lays_navigate url
  | @fill selector value hs hselector hv =>
    refine ⟨.fill (Action.fillValue value).bare?, by simp [call?, hs, hv],
      by simp [ownSelector?, hs, hselector, Call.hasSelector], ?_⟩
    have hargs : s.arguments = .quoted selector :: (Action.fillValue value).literal?.toList := by
      simp [arguments, quoted?, hs, hselector, hv]
    rw [hargs]
    exact Action.lays_fill selector (hvalue value hv)
  | @click selector hs hselector =>
    refine ⟨.click, by simp [call?, hs], by simp [ownSelector?, hs, hselector, Call.hasSelector], ?_⟩
    have hargs : s.arguments = [.quoted selector] := by simp [arguments, quoted?, hs, hselector]
    rw [hargs]
    exact Action.lays_click selector
  | @press selector key hs hselector hkey =>
    refine ⟨.press, by simp [call?, hs], by simp [ownSelector?, hs, hselector, Call.hasSelector], ?_⟩
    have hargs : s.arguments = [.quoted selector, .quoted key] := by
      simp [arguments, quoted?, hs, hselector, hkey]
    rw [hargs]
    exact Action.lays_press selector key
  | @wait selector hs hselector =>
    refine ⟨.wait (s.timeout.getD Action.defaultWait), by simp [call?, hs],
      by simp [ownSelector?, hs, hselector, Call.hasSelector], ?_⟩
    have hargs : s.arguments = [.quoted selector] := by simp [arguments, quoted?, hs, hselector]
    rw [hargs]
    exact Action.lays_wait selector (s.timeout.getD Action.defaultWait)
  | rawCode hs _ => exact absurd hs haction

theorem Step.HasAction.kind_eq {s : Step} {a : Action} (h : s.HasAction a) : a.kind = s.action := by
  cases h <;> exact Eq.symm ‹s.action = _›

theorem Step.HasAction.selector?_eq {s : Step} {a : Action} (h : s.HasAction a)
    (haction : s.action ≠ "playwright_code") : a.selector? = s.ownSelector? := by
  cases h <;> simp_all [Step.ownSelector?, Action.selector?]

/-- The record of a step's task is the record of its call, with the literals of the step in it. -/
theorem Step.lays_record {s : Step} {a : Action} (haction : s.action ≠ "playwright_code")
    (hvalue : ∀ v, s.value = some v → v.IsScalar) (h : s.HasAction a) (index : Nat) (last : Bool) :
    ∃ call, s.call? = some call ∧
      Lays (Task.edits ⟨index, s.name, a, none, s.output, s.hint⟩ last)
        (call.record s.output.isSome s.hint.isSome last) s.literals := by
  obtain ⟨call, hcall, hhas, hstatements⟩ := lays_action haction hvalue h
  refine ⟨call, hcall, ?_⟩
  have hhead : Lays [.opening "\x7b", Task.property "name" s.name, Task.property "action" s.action]
      [.opening "\x7b", Call.property "name", Call.property "action"] [.quoted s.name, .quoted s.action] :=
    ((Lays.opening (by decide)).append (.property (by decide) s.name)).append (.property (by decide) s.action)
  have hselector := Lays.property? (show Plain "selector" by decide) s.ownSelector?
  have hfunction : Lays [.block "execute: async () =>"] [.block "execute: async () =>"] [] := .block (by decide)
  have hend : Lays [.closing "\x7d,"] [.closing "\x7d,"] [] := .closing (by decide)
  have hclose : Lays [.closing (if last then "\x7d" else "\x7d,")] [.closing (if last then "\x7d" else "\x7d,")] [] :=
    .closing (by cases last <;> decide)
  unfold Task.edits Call.record Task.selector? Task.body
  rw [h.kind_eq, h.selector?_eq haction, hhas]
  exact ((((((hhead.append hselector).append_code hfunction).append hstatements).append_code hend).append
    (.property? (by decide) s.output)).append (.property? (by decide) s.hint)).append_code hclose

/-- Whatever the texts of a step are, its record can be read as code and literals; the code is that of the step's call,
and the literals are the texts, in order.  A template stands for the text that it was written from, with the references
of that text as its holes. -/
theorem Task.scan?_edits {s : Step} {index : Nat} {t : Task} (hwhen : s.whenClause = none)
    (haction : s.action ≠ "playwright_code") (hvalue : ∀ v, s.value = some v → v.IsScalar)
    (ht : Task.ofStep index s = .ok t) (last : Bool) (level : Nat) :
    ∃ call ts, s.call? = some call ∧ scan? (Edit.text level (t.edits last)).toList = some ts ∧
      Token.emptied ts = Edit.text level (call.record s.output.isSome s.hint.isSome last) ∧
      Token.literals ts = s.literals ∧
      ∀ raw l, (Expr.ofText raw).literal? = some l → l.spelling? = some raw := by
  obtain ⟨a, ha, rfl⟩ := Task.exists_hasAction_of_ofStep hwhen ht
  obtain ⟨call, hcall, hlays⟩ := Step.lays_record haction hvalue ha index last
  obtain ⟨ts, hscan, hcode, hliterals⟩ := (hlays level).1.scan?_eq
  exact ⟨call, ts, hcall, hscan, hcode, hliterals, fun _ _ => Expr.spelling?_of_literal?⟩

/-- Texts that would end a literal, a line or the record, and a value that mixes them with a reference. -/
theorem Task.scan?_edits_stray :
    ∃ t ts, Task.ofStep 0 ⟨"\"\x7d,\n", "fill", none, some "\\", some (.str "\x60$\x7binput.x\x7d\""), none, none, none,
        none, some "$\x7binput.x\x7d", none⟩ = .ok t ∧
      scan? (Edit.text 1 (t.edits true)).toList = some ts ∧
      Token.emptied ts = Edit.text 1 ((Call.fill none).record true false true) ∧
      Token.literals ts = [.quoted "\"\x7d,\n", .quoted "fill", .quoted "\\", .quoted "\\",
        .template ⟨["\x60", "\""], ["input.x"]⟩, .quoted "$\x7binput.x\x7d"] := by
  have hvalue : Expr.ofText "\x60$\x7binput.x\x7d\"" = .template [.lit "\x60", .var ⟨.input, "x"⟩, .lit "\""] := by cbv
  obtain ⟨call, ts, hcall, hscan, hcode, hliterals, -⟩ := Task.scan?_edits (s := ⟨"\"\x7d,\n", "fill", none, some "\\",
    some (.str "\x60$\x7binput.x\x7d\""), none, none, none, none, some "$\x7binput.x\x7d", none⟩) rfl (by decide)
    (by rintro v ⟨⟩; exact .inl ⟨_, rfl⟩) (show Task.ofStep 0 _ = .ok _ from rfl) true 1
  obtain rfl : Call.fill none = call := by
    simpa [Step.call?, Action.fillValue, hvalue, Expr.bare?] using hcall
  refine ⟨_, ts, rfl, hscan, hcode, hliterals.trans ?_⟩
  simp [Step.literals, Step.arguments, Step.quoted?, Step.ownSelector?, Action.fillValue, hvalue, Expr.literal?,
    Part.texts, Part.names, Reference.text, Scope.name]

end FlowScript
