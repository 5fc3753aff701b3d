import TemplateModules.Json.Written

/-!
# What a load gives

Loading a template gives the text of a module, or the errors of the template.  Both have a form in
JSON: an object with the field `contents`, or one with the field `errors`.
-/

namespace TemplateModules
namespace Loading

/-- What a load gives. -/
inductive LoadOutput where
  | contents (text : String)
  | errors (texts : List String)
  deriving DecidableEq, Repr

namespace LoadOutput

def moduleText? : LoadOutput → Option String
  | contents text => some text
  | errors _ => none

def errorTexts : LoadOutput → List String
  | contents _ => []
  | errors texts => texts

def isError : LoadOutput → Bool
  | contents _ => false
  | errors _ => true

/-- The fields of the form in JSON. -/
def fields : LoadOutput → List (String × Json)
  | contents text => [("contents", .text text)]
  | errors texts => [("errors", .list (texts.map fun t => .object [("text", .text t)]))]

/-- The text of the form in JSON. -/
def write (output : LoadOutput) : String :=
  (Json.object output.fields).write

/-- The value of a field that is written exactly once. -/
def onlyField? (key : String) (fields : List (Option String × Written)) : Option Written :=
  match fields.filter fun (k, _) => k = some key with
  | [(_, value)] => some value
  | _ => none

/-- The text that a value is. -/
def asText? : Written → Option String
  | .text s => s
  | _ => none

/-- The text of an error: the field of an object, or the only item of a list. -/
def errorText? : Written → Option String
  | .object fields => (onlyField? "text" fields).bind asText?
  | .list [item] => asText? item
  | _ => none

/-- What an object with the field `contents` says. -/
def readContents? (fields : List (Option String × Written)) : Option LoadOutput :=
  ((onlyField? "contents" fields).bind asText?).map contents

/-- What an object with the field `errors` says. -/
def readErrors? (fields : List (Option String × Written)) : Option LoadOutput :=
  match onlyField? "errors" fields with
  | some (.list items) => (items.mapM errorText?).map errors
  | _ => none

/-- Reads the form in JSON.  The field `contents` is tried first, and other fields are left out. -/
def read? (s : String) : Option LoadOutput :=
  (Written.read? s).bind fun document =>
    document.value?.bind fun _ =>
      match document with
      | .object fields => (readContents? fields).or (readErrors? fields)
      | _ => none

end LoadOutput
end Loading
end TemplateModules
