import Vernacular.Yaml.Scalar

/-!
Tokens of YAML documents, in which the indentation of block collections and the keys written
without a mark have become tokens of their own. Documents may hold block and flow collections,
plain and quoted scalars, and comments.

A token is given out only when some more are known, and one that may turn out to be a key only when
that is settled. So a text has its tokens up to the first one for which what follows breaks a rule.
-/

set_option autoImplicit false

namespace Vernacular.Yaml

/-- A token. `invalid` ends the tokens of a text that has no further ones by the rules. -/
inductive Token where
  | start
  | finish
  | documentStart
  | documentEnd
  | blockSequence
  | blockMapping
  | blockEnd
  | flowSequence
  | flowSequenceEnd
  | flowMapping
  | flowMappingEnd
  | blockEntry
  | flowEntry
  | key
  | value
  | scalar (text : String) (plain : Bool)
  | invalid
deriving DecidableEq

/-- A scalar or flow collection that becomes a key if a colon follows it: its number among the
tokens, its place, whether it can still be one, and whether nothing else is possible there. -/
structure PossibleKey where
  number : Nat := 0
  index : Nat := 0
  line : Nat := 0
  column : Nat := 0
  possible : Bool := false
  required : Bool := false

structure Scanner where
  cursor : Cursor
  /-- The tokens that are not given out, the next one first. -/
  queue : List Token := [.start]
  /-- How many tokens are given out. -/
  given : Nat := 0
  /-- The columns of the open block collections, the innermost first. -/
  indents : List Nat := []
  /-- The key last noted in each open flow collection, the innermost first, and around them. -/
  keys : List PossibleKey := [{}]
  /-- The numbers of the tokens that are held back as possible keys, with the depth of each. -/
  held : List (Nat × Nat) := []
  keyAllowed : Bool := true

namespace Scanner

def maxDepth : Nat :=
  10000

def lookahead : Nat :=
  3

def maxKeyLength : Nat :=
  1024

def depth (s : Scanner) : Nat :=
  s.keys.length - 1

def inFlow (s : Scanner) : Bool :=
  match s.keys with
  | _ :: _ :: _ => true
  | _ => false

/-- The column from which the content of the innermost block collection starts. -/
def limit (s : Scanner) : Nat :=
  match s.indents with
  | [] => 0
  | column :: _ => column + 1

def next (s : Scanner) : Nat :=
  s.given + s.queue.length

def push (s : Scanner) (t : Token) : Scanner :=
  { s with queue := s.queue ++ [t] }

def take (s : Scanner) (n : Nat) (t : Token) : Scanner :=
  { s with cursor := s.cursor.advance n, queue := s.queue ++ [t] }

/-- Adds a token in front of the one with a number, or as the last one if that is given out. -/
def insert (s : Scanner) (number : Nat) (t : Token) : Scanner :=
  if number < s.given then s.push t
  else
    { s with
      queue := s.queue.take (number - s.given) ++ t :: s.queue.drop (number - s.given) }

def allowKey (s : Scanner) (allowed : Bool) : Scanner :=
  { s with keyAllowed := allowed }

def release (s : Scanner) (number : Nat) : Scanner :=
  { s with held := s.held.filter (·.1 ≠ number) }

def setKey (s : Scanner) (k : PossibleKey) : Scanner :=
  { s with keys := k :: s.keys.tail }

def skipBlanks (tabs : Bool) : Nat → Cursor → Option Cursor
  | 0, c => some c
  | fuel + 1, c => do
    let c ← c.need 1
    if c.rest.head? = some ' ' || (tabs && c.rest.head? = some '\t') then
      skipBlanks tabs fuel c.step
    else some c

def skip : Nat → Scanner → Option Scanner
  | 0, s => some s
  | fuel + 1, s => do
    let c ← s.cursor.need 1
    let c := if c.column = 0 && c.atMark then c.step else c
    let c ← skipBlanks (s.inFlow || !s.keyAllowed) c.bound c
    let c ← if c.rest.head? = some '#' then c.overComments c.bound else some c
    if c.rest.head?.any isBreak then
      let c ← c.need 2
      skip fuel { s with cursor := c.nextLine, keyAllowed := s.keyAllowed || !s.inFlow }
    else some { s with cursor := c }

def unroll (s : Scanner) (closes : Nat → Bool) : Scanner :=
  if s.inFlow then s
  else
    { s with
      queue := s.queue ++ (s.indents.takeWhile closes).map fun _ => Token.blockEnd
      indents := s.indents.dropWhile closes }

/-- Opens a block collection at a column, unless one is open there. Its token goes in front of the
one with the number. -/
def roll (s : Scanner) (column number : Nat) (t : Token) : Option Scanner :=
  if s.inFlow || column < s.limit then some s
  else if maxDepth ≤ s.indents.length then none
  else some { s.insert number t with indents := column :: s.indents }

/-- Gives up the key that was possible, which fails if it was required. -/
def dropKey (s : Scanner) : Option Scanner :=
  match s.keys with
  | k :: _ =>
    if !k.possible then some s
    else if k.required then none
    else some ((s.setKey { k with possible := false }).release k.number)
  | [] => some s

def saveKey (s : Scanner) : Option Scanner :=
  if s.keyAllowed then
    (dropKey s).map fun s =>
      let k : PossibleKey := {
        number := s.next
        index := s.cursor.index
        line := s.cursor.line
        column := s.cursor.column
        possible := true
        required := !s.inFlow && s.indents.head? = some s.cursor.column }
      { s.setKey k with held := (k.number, s.depth) :: s.held.filter (·.1 ≠ k.number) }
  else some s

/-- Whether a key is still possible: it must start on this line, not too far back. A required one
must not become impossible. -/
def stillPossible (s : Scanner) (k : PossibleKey) : Option Bool :=
  if !k.possible then some false
  else if k.line < s.cursor.line || k.index + maxKeyLength < s.cursor.index then
    if k.required then none else some false
  else some true

def value (s : Scanner) : Option Scanner := do
  let k ← s.keys.head?
  if ← s.stillPossible k then
    let s ← (s.insert k.number .key).roll k.column k.number .blockMapping
    let s := (s.setKey { k with possible := false }).release k.number
    return (s.allowKey false).take 1 .value
  else if !s.inFlow && !s.keyAllowed then none
  else
    let s ← (s.setKey { k with possible := false }).roll s.cursor.column s.next .blockMapping
    return (s.allowKey (!s.inFlow)).take 1 .value

def entry (s : Scanner) (collection t : Token) (allowed : Bool) : Option Scanner := do
  if !s.inFlow && !s.keyAllowed then none
  else
    let s ← s.roll s.cursor.column s.next collection
    let s ← s.dropKey
    return (s.allowKey allowed).take 1 t

def documentMark (s : Scanner) (t : Token) : Option Scanner :=
  (dropKey (s.unroll fun _ => true)).map fun s => (s.allowKey false).take 3 t

def flowStart (s : Scanner) (t : Token) : Option Scanner := do
  let s ← s.saveKey
  if maxDepth ≤ s.depth then none
  else return ({ s with keys := { number := s.next } :: s.keys }.allowKey true).take 1 t

/-- The end of a flow collection. The token of the key last noted in it is not held back any more,
and if none was, neither is the one that starts the collection. -/
def flowEnd (s : Scanner) (t : Token) : Option Scanner := do
  let s ← s.dropKey
  let s := match s.keys with
    | k :: outer :: keys => { s with keys := outer :: keys }.release k.number
    | _ => s
  return (s.allowKey false).take 1 t

def quoted (s : Scanner) (single : Bool) : Option Scanner := do
  let s ← s.saveKey
  let (cursor, text) ← s.cursor.step.quoted single s.cursor.bound ""
  return { s.push (.scalar text false) with cursor, keyAllowed := false }

def plain (s : Scanner) : Option Scanner := do
  let s ← s.saveKey
  let (cursor, text, ended) ←
    s.cursor.plain s.inFlow s.limit s.cursor.bound {} ""
  return { s.push (.scalar text true) with cursor, keyAllowed := ended }

def startsPlain (inFlow : Bool) : List Char → Bool
  | [] => false
  | c :: rest =>
    !(isSpace c || isBreak c || "-?:,[]\x7b\x7d#&*!|>'\"%@`".toList.contains c) ||
      (c = '-' && !(rest.head?.any isSpace)) ||
      (!inFlow && (c = '?' || c = ':') && !atBlank rest)

def content (s : Scanner) (c : Char) (rest : List Char) : Option Scanner :=
  if c = '[' then s.flowStart .flowSequence
  else if c = '\x7b' then s.flowStart .flowMapping
  else if c = ']' then s.flowEnd .flowSequenceEnd
  else if c = '\x7d' then s.flowEnd .flowMappingEnd
  else if c = ',' then s.dropKey.map fun s => (s.allowKey true).take 1 .flowEntry
  else if c = '-' && atBlank rest then s.entry .blockSequence .blockEntry true
  else if c = '?' && (s.inFlow || atBlank rest) then s.entry .blockMapping .key (!s.inFlow)
  else if c = ':' && (s.inFlow || atBlank rest) then s.value
  else if c = '\'' then s.quoted true
  else if c = '"' then s.quoted false
  else if startsPlain s.inFlow (c :: rest) then s.plain
  else none

/-- Steps over a comment on the line of the token last found, which an entry of a block sequence
does not have. -/
def overLineComment (s : Scanner) : Option Scanner :=
  if s.queue.getLast? = some .blockEntry then some s
  else s.cursor.overLineComment.map ({ s with cursor := · })

def atEnd (s : Scanner) : Option Scanner :=
  let c := s.cursor
  let c := if c.column = 0 then c else { c with column := 0, line := c.line + 1 }
  (dropKey ({ s with cursor := c }.unroll fun _ => true)).map fun s =>
    (s.allowKey false).push .finish

def find (s : Scanner) : Option Scanner := do
  let s ← s.skip s.cursor.bound
  let s := s.unroll (s.cursor.column < ·)
  let cursor ← s.cursor.need 4
  let s := { s with cursor }
  match s.cursor.rest with
  | [] => s.atEnd
  | c :: rest =>
    if s.cursor.column = 0 && c = '%' then none
    else if s.cursor.atDocumentMark then
      s.documentMark (if c = '-' then .documentStart else .documentEnd)
    else (s.content c rest).bind overLineComment

/-- Whether the next token can be given out, with the key noted as impossible if it is not held
back any more. -/
def settle (s : Scanner) : Option (Scanner × Bool) :=
  if s.queue.length < lookahead then some (s, false)
  else
    match s.held.lookup s.given with
    | none => some (s, true)
    | some depth =>
      let i := s.depth - depth
      match s.keys[i]? with
      | none => some (s, true)
      | some k =>
        (s.stillPossible k).map fun possible =>
          ({ s with keys := s.keys.set i { k with possible } }, !possible)

def run : Nat → Scanner → List Token
  | 0, _ => [.invalid]
  | fuel + 1, s =>
    match s.settle with
    | none => [.invalid]
    | some (s, false) =>
      match s.find with
      | none => [.invalid]
      | some s => run fuel s
    | some (s, true) =>
      match s.queue with
      | [] => [.invalid]
      | .finish :: _ => []
      | t :: queue => t :: run fuel { s with queue, given := s.given + 1 }

end Scanner

def Token.scan (s : String) : List Token :=
  let text := s.toList
  match (Scanner.run (6 * text.length + 40) { cursor := .start text }) with
  | .start :: ts => ts
  | ts => ts

end Vernacular.Yaml
