import FlowScript.Schema.Check

/-!
# The schema of workflows

What a tree must look like to be read as a workflow.
-/

namespace FlowScript

namespace Grammar

def text : Schema := .rules [.kind .string]

def nonEmptyText : Schema := .rules [.kind .string, .minLength 1]

/-- Anything at all. -/
def anything : Schema := .rules []

/-- One of several texts. -/
def oneOf (options : List String) : Schema := .rules [.oneOf (options.map .str)]

def actions : List String := ["navigate", "fill", "click", "press", "wait", "playwright_code"]

def operators : List String := ["==", "!=", ">", "<", ">=", "<="]

/-- A step with the given action has certain fields. -/
def actionNeeds (action : String) (fields : List String) : Schema :=
  .rules [.ifThen
    (.rules [.properties [("action", .rules [.const (.str action)])], .required ["action"]])
    (.rules [.required fields])]

def stepRef : String := "#/definitions/step"

def whenRef : String := "#/definitions/when"

def conditionRef : String := "#/definitions/condition"

def operatorRef : String := "#/definitions/operator"

def workflow : Schema := .rules [
  .kind .object,
  .required ["name", "steps"],
  .properties [
    ("name", nonEmptyText),
    ("description", text),
    ("steps", .rules [.kind .array, .minItems 1, .items (.ref stepRef)])]]

def step : Schema := .rules [
  .kind .object,
  .required ["name", "action"],
  .properties [
    ("name", text),
    ("action", oneOf actions),
    ("url", text),
    ("selector", text),
    ("value", .rules [.kinds [.string, .number, .boolean]]),
    ("key", text),
    ("timeout", .rules [.kind .integer, .minimum (.int 0)]),
    ("code", text),
    ("when", .ref whenRef),
    ("output", text),
    ("hint", text)],
  .allOf [
    actionNeeds "navigate" ["url"],
    actionNeeds "fill" ["selector", "value"],
    actionNeeds "click" ["selector"],
    actionNeeds "press" ["selector", "key"],
    actionNeeds "wait" ["selector"],
    actionNeeds "playwright_code" ["code"]]]

def condition : Schema := .rules [
  .kind .object,
  .required ["field", "op", "value"],
  .properties [("field", nonEmptyText), ("op", .ref operatorRef), ("value", anything)]]

def whenClause : Schema := .rules [
  .kind .object,
  .properties [
    ("field", nonEmptyText),
    ("op", .ref operatorRef),
    ("value", anything),
    ("conditions", .rules [.kind .array, .minItems 1, .items (.ref conditionRef)]),
    ("match", oneOf ["all", "any"])]]

end Grammar

def Workflow.schema : SchemaDocument where
  root := Grammar.workflow
  named := [
    (Grammar.stepRef, Grammar.step),
    (Grammar.whenRef, Grammar.whenClause),
    (Grammar.conditionRef, Grammar.condition),
    (Grammar.operatorRef, Grammar.oneOf Grammar.operators)]

end FlowScript
