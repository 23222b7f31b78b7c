import Vernacular.Yaml.Cursor

set_option autoImplicit false

namespace Vernacular.Yaml

/-- What separates two pieces of a scalar: blanks, or a first line break and the further ones. -/
structure Gap where
  spaces : String := ""
  first : Option String := none
  further : String := ""

/-- The text that a gap stands for: a single line break is folded into a blank. -/
def Gap.text (g : Gap) : String :=
  match g.first with
  | none => g.spaces
  | some b => if b = "\n" then (if g.further = "" then " " else g.further) else b ++ g.further

namespace Cursor

/-- Reads a gap. A tab before the column `limit` of a continuation line is refused. -/
def gap (limit : Nat) : Nat → Cursor → Gap → Option (Cursor × Gap)
  | 0, c, g => some (c, g)
  | fuel + 1, c, g => do
    let c ← c.need 1
    match c.rest with
    | [] => some (c, g)
    | x :: _ =>
      if isSpace x then
        match g.first with
        | none => gap limit fuel c.step { g with spaces := g.spaces.push x }
        | some _ => if x = '\t' && c.column < limit then none else gap limit fuel c.step g
      else if isBreak x then do
        let c ← c.need 2
        match g.first with
        | none => gap limit fuel c.nextLine { first := some c.breakText }
        | some _ => gap limit fuel c.nextLine { g with further := g.further ++ c.breakText }
      else some (c, g)

def stopsPlain (inFlow : Bool) (cs : List Char) : Bool :=
  atBlank cs ||
    match cs with
    | ':' :: rest => atBlank rest
    | c :: _ => inFlow && [',', '?', '[', ']', '\x7b', '\x7d'].contains c
    | [] => true

def plainPiece (inFlow : Bool) : Nat → Cursor → String → Option (Cursor × String)
  | 0, c, s => some (c, s)
  | fuel + 1, c, s =>
    match c.rest with
    | [] => some (c, s)
    | x :: _ =>
      if stopsPlain inFlow c.rest then some (c, s)
      else do
        let c ← c.step.need 2
        plainPiece inFlow fuel c (s.push x)

/-- Reads a plain scalar whose continuation lines are indented to the column `limit`, and tells
whether it ended with a line. -/
def plain (inFlow : Bool) (limit : Nat) :
    Nat → Cursor → Gap → String → Option (Cursor × String × Bool)
  | 0, _, _, _ => none
  | fuel + 1, c, before, s => do
    let c ← c.need 4
    if c.atDocumentMark || c.rest.head? = some '#' then some (c, s, before.first.isSome)
    else
      let (c, piece) ← c.plainPiece inFlow c.bound ""
      let ended := piece = "" && before.first.isSome
      let s := if piece = "" then s else s ++ before.text ++ piece
      if !(atBlank c.rest && !c.rest.isEmpty) then some (c, s, ended)
      else
        let (next, gap) ← c.gap limit c.bound {}
        if !inFlow && next.column < limit then some (next, s, gap.first.isSome)
        else plain inFlow limit fuel next gap s

def hexDigit? (c : Char) : Option Nat :=
  if c.isDigit then some (c.toNat - '0'.toNat)
  else if 'a' ≤ c && c ≤ 'f' then some (c.toNat - 'a'.toNat + 10)
  else if 'A' ≤ c && c ≤ 'F' then some (c.toNat - 'A'.toNat + 10)
  else none

def codePoint? (width : Nat) (cs : List Char) : Option Char := do
  let digits ← (cs.take width).mapM hexDigit?
  let n := digits.foldl (fun n d => 16 * n + d) 0
  if digits.length = width ∧ n.isValidChar then some (Char.ofNat n) else none

def escapeWidth : Char → Nat
  | 'x' => 2
  | 'u' => 4
  | 'U' => 8
  | _ => 0

def escape? : List Char → Option Char
  | '0' :: _ => some '\x00'
  | 'a' :: _ => some '\x07'
  | 'b' :: _ => some '\x08'
  | 't' :: _ => some '\t'
  | '\t' :: _ => some '\t'
  | 'n' :: _ => some '\n'
  | 'v' :: _ => some '\x0b'
  | 'f' :: _ => some '\x0c'
  | 'r' :: _ => some '\r'
  | 'e' :: _ => some '\x1b'
  | ' ' :: _ => some ' '
  | '"' :: _ => some '"'
  | '\'' :: _ => some '\''
  | '\\' :: _ => some '\\'
  | 'N' :: _ => some '\u0085'
  | '_' :: _ => some '\u00a0'
  | 'L' :: _ => some '\u2028'
  | 'P' :: _ => some '\u2029'
  | x :: cs => if 0 < escapeWidth x then codePoint? (escapeWidth x) cs else none
  | [] => none

/-- The part of a quoted scalar up to the next blank or the closing quote, and whether it ended
with a line break that is escaped. -/
def quotedPiece (single : Bool) : Nat → Cursor → String → Option (Cursor × String × Bool)
  | 0, _, _ => none
  | fuel + 1, c, s =>
    match c.rest with
    | [] => some (c, s, false)
    | x :: more =>
      if isSpace x || isBreak x then some (c, s, false)
      else if single && x = '\'' then
        if more.head? = some '\'' then do
          let c ← (c.advance 2).need 2
          quotedPiece single fuel c (s.push x)
        else some (c, s, false)
      else if !single && x = '"' then some (c, s, false)
      else if !single && x = '\\' then do
        let y ← more.head?
        if isBreak y then
          let c ← c.need 3
          some (c.step.nextLine, s, true)
        else
          let z ← escape? more
          let c ← (c.advance 2).need (escapeWidth y)
          let c ← (c.advance (escapeWidth y)).need 2
          quotedPiece single fuel c (s.push z)
      else do
        let c ← c.step.need 2
        quotedPiece single fuel c (s.push x)

def quoted (single : Bool) : Nat → Cursor → String → Option (Cursor × String)
  | 0, _, _ => none
  | fuel + 1, c, s => do
    let c ← c.need 4
    if c.atDocumentMark || c.rest.isEmpty then none
    else
      let (c, s, escaped) ← c.quotedPiece single c.bound s
      let c ← c.need 1
      if c.rest.head? = some (if single then '\'' else '"') then some (c.step, s)
      else
        let (next, gap) ← c.gap 0 c.bound (if escaped then { first := some "" } else {})
        quoted single fuel next (s ++ gap.text)

end Cursor

end Vernacular.Yaml
