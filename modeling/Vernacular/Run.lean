import Vernacular.Group.Knot
import Vernacular.Report
import Vernacular.Surface.Value

set_option autoImplicit false

namespace Vernacular

open Surface (DataType TypeSynonym Value Module)

structure Options where
  recover : Bool
  preamble : Bool
  table : Table

inductive Event where
  | emitted (kind : GroupKind) (names : List String)
  | recovered (name : String) (fault : Fault)
  | replaced (count : Nat) (report : String)

namespace Event

def isWarning : Event → Bool
  | .replaced _ _ => true
  | _ => false

def message : Event → String
  | .emitted _ _ => "emitted group"
  | .recovered _ _ => "recovered binding"
  | .replaced _ _ => "bindings translated as axioms"

end Event

structure Outcome where
  sentences : List Sentence
  report : Report

structure Run where
  table : Table
  log : List Event
  result : Except Failure Outcome

namespace Run

/-- Converts the type declarations of a module in order, and sets its values aside. -/
def collect (table : Table) :
    List Surface.Declaration → Table × Except Failure (List Declaration × List Value)
  | [] => (table, .ok ([], []))
  | .data d :: ds =>
    let table := d.register table
    match d.lower table with
    | .error f => (table, .error ((Failure.ofFault f).within ("converting data type " ++ d.name)))
    | .ok body =>
      let (final, rest) := collect table ds
      (final, rest.map fun (types, values) => (.data body :: types, values))
  | .synonym d :: ds =>
    match d.lower table with
    | .error f => (table, .error ((Failure.ofFault f).within ("converting type synonym " ++ d.name)))
    | .ok body =>
      let (final, rest) := collect table ds
      (final, rest.map fun (types, values) => (.synonym body :: types, values))
  | .value d :: ds =>
    let (final, rest) := collect table ds
    (final, rest.map fun (types, values) => (types, d :: values))
  | .foreign kind :: _ => (table, .error (.plain ("unknown declaration " ++ kind)))

/-- The sentences of groups in order, and the events up to the first one that has none. -/
def emit : List Group → List Event × Except Failure (List Sentence)
  | [] => ([], .ok [])
  | g :: gs =>
    match g.sentences with
    | .error f =>
      ([], .error ((Failure.ofFault f).within ("emitting " ++ ", ".intercalate g.names)))
    | .ok sentences =>
      let (log, rest) := emit gs
      (.emitted g.kind g.names :: log, rest.map (sentences ++ ·))

/-- The recovery that replaces a value by its stub and keeps a list of what it replaced. -/
def keepGoing (table : Table) : Surface.Recovery (List (String × Fault)) :=
  fun replaced d f => (replaced ++ [(d.name, f)], .ok (d.stub table f))

/-- The sentences of values, with the names and faults of those replaced. -/
def values (recover : Bool) (table : Table) (ds : List Value) :
    List (String × Fault) × Except Failure (List Sentence) :=
  if recover then Value.lowerAll table (keepGoing table) [] ds
  else ([], (Value.lowerAll table .abort () ds).2)

def reportOf (replaced : List (String × Fault)) : Report :=
  replaced.map fun (name, f) => .recovered name (.ofFault f)

def recoveryLog (moduleName : String) (replaced : List (String × Fault)) : List Event :=
  let report := reportOf replaced
  replaced.map (fun (name, f) => .recovered name f) ++
    if report.warnings = 0 then [] else [.replaced report.warnings (report.format moduleName)]

def ofModule (m : Module) (options : Options) : Run :=
  match collect options.table m.declarations with
  | (table, .error failure) => { table, log := [], result := .error failure }
  | (table, .ok (types, ds)) =>
    let groups := Group.ofDeclarations types
    match emit groups with
    | (log, .error failure) => { table, log, result := .error failure }
    | (log, .ok typeSentences) =>
      match values options.recover table ds with
      | (_, .error failure) => { table, log, result := .error failure }
      | (replaced, .ok valueSentences) =>
        let front := if options.preamble && Group.needsPreamble groups then preamble else []
        { table
          log := log ++ recoveryLog m.name replaced
          result := .ok
            { sentences := front ++ typeSentences ++ valueSentences
              report := reportOf replaced } }

end Run

end Vernacular
