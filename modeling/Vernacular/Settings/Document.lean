import Vernacular.Settings.Basic
import Vernacular.Yaml.Node

set_option autoImplicit false

namespace Vernacular

open Yaml (Node)

namespace Yaml.Node

def isNull : Node → Bool
  | .scalar text plain => plain && ["", "~", "null", "Null", "NULL"].contains text
  | _ => false

/-- The text of a scalar, whatever it looks like; nothing counts as the empty text. -/
def text? (n : Node) : Option String :=
  match n with
  | .scalar text _ => some (if n.isNull then "" else text)
  | _ => none

/-- The truth value of a scalar, of which the words must not be quoted and the short forms may
be. -/
def bool? : Node → Option Bool
  | .scalar text plain =>
    if plain && ["true", "True", "TRUE"].contains text then some true
    else if plain && ["false", "False", "FALSE"].contains text then some false
    else if ["y", "Y", "yes", "Yes", "YES", "on", "On", "ON"].contains text then some true
    else if ["n", "N", "no", "No", "NO", "off", "Off", "OFF"].contains text then some false
    else none
  | _ => none

def optionalBool? (n : Node) : Option (Option Bool) :=
  if n.isNull then some none else n.bool?.map some

def keyText? : Node → Option String
  | .scalar text _ => some text
  | _ => none

/-- Whether a key stands for the fields of the mappings that are its value. -/
def isMerge : Node → Bool
  | .scalar text plain => plain && text = "<<"
  | _ => false

/-- The fields that a mapping has of its own. Keys that stand for nothing do not count. -/
def ownFields (pairs : List (Node × Node)) : List (String × Node) :=
  (pairs.filter fun (key, _) => !key.isNull && !key.isMerge).filterMap fun (key, value) =>
    key.keyText?.map fun text => (text, value)

mutual

/-- The fields of a mapping whose keys are different scalars, or, if `many` allows it, of a sequence
of such mappings. The own fields of a mapping come before those it merges, so that they are found
first. -/
def fields? (many : Bool) : Node → Option (List (String × Node))
  | .mapping pairs =>
    match pairs.mapM (·.1.keyText?) with
    | none => none
    | some keys =>
      if keys.eraseDups.length = keys.length then
        (mergedFields? pairs).map (ownFields pairs ++ ·)
      else none
  | .sequence items => if many then allFields? items else none
  | .scalar _ _ => none

def mergedFields? : List (Node × Node) → Option (List (String × Node))
  | [] => some []
  | p :: pairs => if p.1.isMerge then valueFields? p else mergedFields? pairs

def valueFields? : Node × Node → Option (List (String × Node))
  | (_, value) => value.fields? true

def allFields? : List Node → Option (List (String × Node))
  | [] => some []
  | n :: ns =>
    match n.fields? false, allFields? ns with
    | some fs, some gs => some (fs ++ gs)
    | _, _ => none

end

/-- The value of a field; one that is left out is nothing. -/
def field (fields : List (String × Node)) (name : String) : Node :=
  (fields.lookup name).getD .empty

end Yaml.Node

def RenameRule.ofNode? (n : Node) : Option RenameRule := do
  let fields ← n.fields? false
  let space ← (Node.field fields "namespace").text?
  let source ← (Node.field fields "from").text?
  let target ← (Node.field fields "to").text?
  return { space, source, target }

namespace Settings

/-- The additions from a node of a document; items that stand for nothing are left out. -/
def renames? (n : Node) : Option (List RenameRule) :=
  match n with
  | .sequence items => (items.filter (!·.isNull)).mapM RenameRule.ofNode?
  | _ => if n.isNull then some [] else none

def ofNode? (n : Node) : Option Settings :=
  if n.isNull then some {}
  else do
    let fields ← n.fields? false
    let targetVersion ← (Node.field fields "target_version").text?
    let recover ← (Node.field fields "recover").optionalBool?
    let preamble ← (Node.field fields "preamble").optionalBool?
    let renames ← renames? (Node.field fields "renames")
    return { targetVersion, recover := recover.getD false, preamble, renames }

end Settings

inductive DocumentError where
  | unreadable
  | invalid (error : SettingsError)
deriving DecidableEq

def DocumentError.message (path : String) : DocumentError → String
  | .unreadable => "parsing " ++ path ++ ": not a settings document"
  | .invalid error => path ++ ": " ++ error.message

def Settings.parse (text : String) : Except DocumentError Settings :=
  match (Node.parse? text).bind Settings.ofNode? with
  | none => .error .unreadable
  | some c =>
    match c.withDefaults.validate with
    | .error e => .error (.invalid e)
    | .ok () => .ok c.withDefaults

end Vernacular
