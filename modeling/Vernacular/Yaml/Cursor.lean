/-!
Places in the text of a YAML document. The text is read in block by block, as far as the places
visited ask for it, and a block with a character that no document may hold cannot be read in.
-/

set_option autoImplicit false

namespace Vernacular.Yaml

def isBreak (c : Char) : Bool :=
  c = '\n' || c = '\r' || c = '\u0085' || c = '\u2028' || c = '\u2029'

def isSpace (c : Char) : Bool :=
  c = ' ' || c = '\t'

/-- Whether a text is at its end, or goes on with a blank or a line break. -/
def atBlank : List Char → Bool
  | [] => true
  | c :: _ => isSpace c || isBreak c

def isAllowed (c : Char) : Bool :=
  c = '\t' || c = '\n' || c = '\r' || (' ' ≤ c && c ≤ '~') || c = '\u0085' ||
    (0xa0 ≤ c.toNat && c.toNat ≤ 0xfffd) || 0x10000 ≤ c.toNat

/-- A part of the text that is read in at once: the number of its characters, and whether all of
them are allowed. -/
structure Block where
  size : Nat := 0
  readable : Bool := true

namespace Block

def capacity : Nat :=
  512

/-- The blocks of a text, of which the first holds some bytes already. A block takes the characters
that fit into it whole. -/
def split : List Char → Nat → Block → List Block
  | [], _, b => [b]
  | c :: cs, used, b =>
    if used + c.utf8Size ≤ capacity then
      split cs (used + c.utf8Size) { size := b.size + 1, readable := b.readable && isAllowed c }
    else b :: split cs c.utf8Size { size := 1, readable := isAllowed c }

end Block

structure Cursor where
  rest : List Char
  /-- How many characters from here on are read in; the end of the text counts as one each time it
  is asked for. -/
  ready : Nat := 0
  /-- The blocks that are not read in. -/
  blocks : List Block
  /-- More than the length of the whole text, which bounds what can follow. -/
  bound : Nat
  /-- Whether the text was at a byte order mark when a block was last asked for. -/
  atMark : Bool := false
  index : Nat := 0
  line : Nat := 0
  column : Nat := 0
  /-- The line breaks since the last character that is not blank. -/
  breaks : Nat := 0

namespace Cursor

/-- The start of a text. A byte order mark there does not belong to the text. -/
def start (text : List Char) : Cursor :=
  match text with
  | '\ufeff' :: rest => { rest, blocks := Block.split rest 3 {}, bound := text.length + 2 }
  | rest => { rest, blocks := Block.split rest 0 {}, bound := text.length + 2 }

/-- Reads in blocks until so many characters are there or the text ends. -/
def load (n : Nat) : List Block → Nat → Option (Nat × List Block)
  | [], ready => some (ready + 1, [])
  | b :: bs, ready =>
    if !b.readable then none
    else if n ≤ ready + b.size then some (ready + b.size, bs)
    else load n bs (ready + b.size)

def need (c : Cursor) (n : Nat) : Option Cursor :=
  if n ≤ c.ready then some c
  else
    (load n c.blocks c.ready).map fun (ready, blocks) =>
      { c with ready, blocks, atMark := c.rest.head? = some '\ufeff' }

def step (c : Cursor) : Cursor :=
  { c with
    rest := c.rest.tail
    ready := c.ready - 1
    index := c.index + 1
    column := c.column + 1
    breaks := if c.rest.head?.any isSpace then c.breaks else 0 }

def advance (c : Cursor) : Nat → Cursor
  | 0 => c
  | n + 1 => c.step.advance n

def nextLine (c : Cursor) : Cursor :=
  let n := match c.rest with
    | '\r' :: '\n' :: _ => 2
    | _ => 1
  { c with
    rest := c.rest.drop n
    ready := c.ready - n
    index := c.index + n
    line := c.line + 1
    column := 0
    breaks := c.breaks + 1 }

/-- The line break at the cursor in the form in which a scalar keeps it. -/
def breakText (c : Cursor) : String :=
  match c.rest with
  | '\u2028' :: _ => "\u2028"
  | '\u2029' :: _ => "\u2029"
  | _ => "\n"

def atDocumentMark (c : Cursor) : Bool :=
  c.column = 0 &&
    match c.rest with
    | '-' :: '-' :: '-' :: rest => atBlank rest
    | '.' :: '.' :: '.' :: rest => atBlank rest
    | _ => false

def atLineEnd (c : Cursor) : Bool :=
  match c.rest with
  | [] => true
  | x :: _ => isBreak x

def toLineEnd : Nat → Cursor → Option Cursor
  | 0, c => some c
  | fuel + 1, c => do
    let c ← c.need 1
    if c.atLineEnd then some c else toLineEnd fuel c.step

def overBlanks : Nat → Cursor → Cursor
  | 0, c => c
  | fuel + 1, c =>
    match c.rest with
    | [] => c
    | x :: _ =>
      if isSpace x then overBlanks fuel c.step
      else if isBreak x then overBlanks fuel c.nextLine
      else c

def reach : Nat :=
  512

/-- Whether a comment comes next behind blanks and, if they may stand there, line breaks that take
one byte. The `n` characters from the cursor on before the given text are known to be such. -/
def commentAhead (lines : Bool) (c : Cursor) : Nat → List Char → Option (Cursor × Bool)
  | n, cs =>
    if n < reach then do
      let c ← c.need (n + 1)
      match cs with
      | [] => some (c, false)
      | x :: cs =>
        if isSpace x || (lines && (x = '\n' || x = '\r')) then commentAhead lines c (n + 1) cs
        else if lines && isBreak x && n + 1 < reach then
          (c.need (n + 2)).map (·, false)
        else some (c, x = '#')
    else some (c, false)

def overComments : Nat → Cursor → Option Cursor
  | 0, c => some c
  | fuel + 1, c => do
    let c ← c.toLineEnd c.bound
    let (c, found) ← match c.rest with
      | '\n' :: cs | '\r' :: cs => c.commentAhead true 1 cs
      | _ => (c.need 2).map (·, false)
    if found then overComments fuel (c.overBlanks c.bound) else some c

/-- Steps over a comment on the line of what stands before the cursor. -/
def overLineComment (c : Cursor) : Option Cursor :=
  if 0 < c.breaks then some c
  else do
    let (c, found) ← c.commentAhead false 0 c.rest
    if found then c.toLineEnd c.bound else some c

end Cursor

end Vernacular.Yaml
