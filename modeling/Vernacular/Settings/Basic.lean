import Vernacular.Run
import Vernacular.Settings.Version
import Vernacular.Text.Blank

set_option autoImplicit false

namespace Vernacular

/-- An addition to the renaming table; the namespace is given by one of its names. -/
structure RenameRule where
  space : String
  source : String
  target : String
deriving DecidableEq

/-- How an addition is told from others: by the full name of its namespace and its source. -/
def Slot.label (slot : Slot) : String :=
  slot.space.name ++ " " ++ slot.source

structure Settings where
  targetVersion : String := ""
  recover : Bool := false
  preamble : Option Bool := none
  renames : List RenameRule := []

inductive RenameError where
  | unknownNamespace (text : String)
  | blank
  | reservedTarget (target : String)
  | duplicate (space : Namespace) (source : String) (earlier : Nat)
deriving DecidableEq

inductive SettingsError where
  | version (text : String) (error : VersionError)
  | tooOld (text : String)
  | rename (index : Nat) (error : RenameError)
deriving DecidableEq

def RenameError.message : RenameError → String
  | .unknownNamespace text => Namespace.unknownMessage text
  | .blank => "from and to are required"
  | .reservedTarget target => "target " ++ Text.quoted target ++ " is a reserved word"
  | .duplicate space source earlier =>
    space.name ++ " " ++ Text.quoted source ++ " already renamed by renames[" ++
      toString earlier ++ "]"

def SettingsError.message : SettingsError → String
  | .version text error => "target_version " ++ Text.quoted text ++ ": " ++ error.message
  | .tooOld text => "target_version " ++ text ++ " is older than the minimum supported 8.6"
  | .rename index error => "renames[" ++ toString index ++ "]: " ++ error.message

namespace Settings

/-- Fills in what was left out: the oldest supported release, and a preamble where one is needed. -/
def withDefaults (c : Settings) : Settings :=
  { c with
    targetVersion := if c.targetVersion = "" then "8.6" else c.targetVersion
    preamble := some (c.preamble.getD true) }

def default : Settings :=
  withDefaults {}

def target (c : Settings) : Except VersionError Version :=
  Version.parse c.targetVersion

def wantsPreamble (c : Settings) : Bool :=
  c.preamble.getD true

/-- Checks additions to the renaming table in order, with the labels of those already seen and the
number of the next one. -/
def checkRenames (seen : List (String × Nat)) (index : Nat) :
    List RenameRule → Except SettingsError Unit
  | [] => .ok ()
  | r :: rs =>
    match Namespace.parse? r.space with
    | none => .error (.rename index (.unknownNamespace r.space))
    | some space =>
      if Text.isBlankText r.source || Text.isBlankText r.target then
        .error (.rename index .blank)
      else if Identifier.isReserved r.target then
        .error (.rename index (.reservedTarget r.target))
      else
        match seen.lookup (Slot.label ⟨r.source, space⟩) with
        | some earlier => .error (.rename index (.duplicate space r.source earlier))
        | none => checkRenames ((Slot.label ⟨r.source, space⟩, index) :: seen) (index + 1) rs

def checkRelease (text : String) : Except SettingsError Unit :=
  match Version.parse text with
  | .error e => .error (.version text e)
  | .ok v => if v.isAtLeast 8 6 then .ok () else .error (.tooOld text)

/-- Checks settings: the release first, as `check` says, then the additions to the renaming
table. -/
def validateWith (check : String → Except SettingsError Unit) (c : Settings) :
    Except SettingsError Unit :=
  match check c.targetVersion with
  | .error e => .error e
  | .ok () => checkRenames [] 0 c.renames

def validate (c : Settings) : Except SettingsError Unit :=
  c.validateWith checkRelease

def extend (t : Table) (index : Nat) : List RenameRule → Except SettingsError Table
  | [] => .ok t
  | r :: rs =>
    match Namespace.parse? r.space with
    | none => .error (.rename index (.unknownNamespace r.space))
    | some space => extend (t.rename space r.source r.target) (index + 1) rs

def table (c : Settings) : Except SettingsError Table :=
  extend .initial 0 c.renames

def options (c : Settings) : Except SettingsError Options :=
  c.table.map fun table => { recover := c.recover, preamble := c.wantsPreamble, table }

end Settings

end Vernacular
