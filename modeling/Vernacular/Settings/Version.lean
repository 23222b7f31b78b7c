import Vernacular.Text.Quoted

set_option autoImplicit false

namespace Vernacular

/-- A release number. The parts behind the numbers are empty when absent. -/
structure Version where
  major : Nat
  minor : Nat
  patch : Nat
  prerelease : String
  build : String
deriving DecidableEq

inductive VersionError where
  | invalid
  | outOfRange (digits : String)
  | leadingZero
deriving DecidableEq

def VersionError.message : VersionError → String
  | .invalid => "Invalid Semantic Version"
  | .outOfRange digits =>
    "Error parsing version segment: strconv.ParseUint: parsing " ++ Text.quoted digits ++
      ": value out of range"
  | .leadingZero => "Version segment starts with 0"

namespace Version

def valueOf (digits : List Char) : Nat :=
  digits.foldl (fun n c => 10 * n + (c.toNat - '0'.toNat)) 0

/-- The decimal digits at the front of a text, of which there is at least one, and the rest. -/
def digits? (cs : List Char) : Option (List Char × List Char) :=
  if (cs.takeWhile Char.isDigit).isEmpty then none
  else some (cs.takeWhile Char.isDigit, cs.dropWhile Char.isDigit)

/-- A further number behind a point; without a point there is none. -/
def dotted? (cs : List Char) : Option (List Char × List Char) :=
  match cs with
  | '.' :: rest => digits? rest
  | _ => some ([], cs)

def isPartChar (c : Char) : Bool :=
  c.isAlphanum || c = '-'

/-- A part behind the numbers, if its mark is there: identifiers with points between them. -/
def part? (mark : Char) (cs : List Char) : Option (List (List Char) × List Char) :=
  match cs with
  | c :: rest =>
    if c = mark then
      let parts := (rest.takeWhile fun c => isPartChar c || c = '.').splitOn '.'
      if parts.any List.isEmpty then none
      else some (parts, rest.dropWhile fun c => isPartChar c || c = '.')
    else some ([], cs)
  | [] => some ([], cs)

/-- The value of digits that fit into 64 bits. -/
def segment (digits : List Char) : Except VersionError Nat :=
  if valueOf digits < 0x10000000000000000 then .ok (valueOf digits)
  else .error (.outOfRange (String.ofList digits))

/-- Whether an identifier is a number with a needless zero in front. -/
def hasLeadingZero (identifier : List Char) : Bool :=
  identifier.all Char.isDigit && 1 < identifier.length && identifier.head? = some '0'

def joined (identifiers : List (List Char)) : String :=
  ".".intercalate (identifiers.map String.ofList)

def shape? (s : String) :
    Option (List Char × List Char × List Char × List (List Char) × List (List Char)) := do
  let cs := match s.toList with
    | 'v' :: rest => rest
    | cs => cs
  let (major, cs) ← digits? cs
  let (minor, cs) ← dotted? cs
  let (patch, cs) ← dotted? cs
  let (prerelease, cs) ← part? '-' cs
  let (build, cs) ← part? '+' cs
  if cs.isEmpty then some (major, minor, patch, prerelease, build) else none

/-- Reads a release number. Missing numbers are zero. -/
def parse (s : String) : Except VersionError Version :=
  match shape? s with
  | none => .error .invalid
  | some (major, minor, patch, prerelease, build) => do
    let major ← segment major
    let minor ← segment minor
    let patch ← segment patch
    if prerelease.any hasLeadingZero then throw .leadingZero
    return { major, minor, patch, prerelease := joined prerelease, build := joined build }

def print (v : Version) : String :=
  toString v.major ++ "." ++ toString v.minor ++ "." ++ toString v.patch ++
    (if v.prerelease = "" then "" else "-" ++ v.prerelease) ++
    (if v.build = "" then "" else "+" ++ v.build)

/-- Whether a release is at least the given one, of which only the first two numbers count. No
pre-release is. -/
def isAtLeast (v : Version) (major minor : Nat) : Bool :=
  v.prerelease = "" && (major < v.major || (major = v.major && minor ≤ v.minor))

end Version

end Vernacular
