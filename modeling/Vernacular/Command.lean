import Vernacular.Settings.Document

set_option autoImplicit false

namespace Vernacular

inductive FileState where
  | absent
  | failing (reason : String)
  | content (text : String)

structure Response where
  output : String := ""
  errors : String := ""
  exitCode : Nat := 0

namespace Command

def settingsFile : String :=
  "hs2v.yaml"

def usage : String :=
  "hs2v - translation core for converting functional programs to Gallina\n\n" ++
  "Usage:\n" ++
  "  hs2v escape <ident>...            Print the escaped form of each identifier\n" ++
  "  hs2v table [--config <file>]      Print the renaming table a run starts from\n" ++
  "  hs2v check-config <file>          Validate a configuration file\n\n" ++
  "Options:\n" ++
  "  --config <file>   Configuration file (default: " ++ settingsFile ++ " if present)\n\n" ++
  "Examples:\n" ++
  "  hs2v escape fix Type_ map         Prints fix_, Type__ and map\n" ++
  "  hs2v table --config hs2v.yaml     Built-in plus configured renamings\n"

def fail (message : String) : Response :=
  { errors := message, exitCode := 1 }

def padded (width : Nat) (s : String) : String :=
  s ++ String.ofList (List.replicate (width - s.length) ' ')

section Files

variable {m : Type → Type} [Monad m] (read : String → m FileState)

def load (path : String) : m (Except String Settings) := do
  match ← read path with
  | .absent =>
    return .error ("reading config " ++ path ++ ": open " ++ path ++ ": no such file or directory")
  | .failing reason => return .error ("reading config " ++ path ++ ": " ++ reason)
  | .content text => return (Settings.parse text).mapError (·.message path)

/-- The settings in a named file, or else in the usual file if it exists, or else the defaults. -/
def loadOrDefault (path : String) : m (Except String Settings) := do
  if path = "" then
    match ← read settingsFile with
    | .absent => return .ok .default
    | _ => load read settingsFile
  else load read path

end Files

def escape (args : List String) : Response :=
  if args.isEmpty then fail "Error: no identifiers specified\n"
  else { output := String.join (args.map fun x => Identifier.escape x ++ "\n") }

/-- The settings file that the options name last. -/
def configPath (path : String) : List String → Except String String
  | [] => .ok path
  | ["--config"] => .error "Error: --config needs a file\n"
  | "--config" :: next :: args => configPath next args
  | arg :: _ => .error ("Unknown option: " ++ arg ++ "\n")

def tableLine (e : Slot × String) : String :=
  padded 10 e.1.space.name ++ " " ++ padded 12 e.1.source ++ " -> " ++ e.2 ++ "\n"

def withSettings (settings : Except String Settings) (respond : Settings → Response) : Response :=
  match settings with
  | .error message => fail ("Error: " ++ message ++ "\n")
  | .ok c => respond c

def tableListing (c : Settings) : Response :=
  match c.table with
  | .error e => fail ("Error: " ++ e.message ++ "\n")
  | .ok t => { output := String.join (t.entries.map tableLine) }

def summary (path : String) (c : Settings) : Response :=
  match c.target with
  | .error e => fail ("Error: " ++ e.message ++ "\n")
  | .ok version =>
    { output := path ++ ": ok (target " ++ version.print ++ ", " ++ toString c.renames.length ++
        " rename(s), recover=" ++ (if c.recover then "true" else "false") ++ ")\n" }

def run {m : Type → Type} [Monad m] (read : String → m FileState) : List String → m Response
  | [] => return { errors := usage, exitCode := 1 }
  | "escape" :: args => return escape args
  | "table" :: args =>
    match configPath "" args with
    | .error message => return fail message
    | .ok path => return withSettings (← loadOrDefault read path) tableListing
  | "check-config" :: [] => return fail "Error: no configuration file specified\n"
  | "check-config" :: path :: _ => return withSettings (← load read path) (summary path)
  | "help" :: _ | "--help" :: _ | "-h" :: _ => return { output := usage }
  | command :: _ => return fail ("Unknown command: " ++ command ++ "\n\n" ++ usage)

end Command

end Vernacular
