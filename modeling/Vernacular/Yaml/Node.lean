import Vernacular.Yaml.Token

set_option autoImplicit false

namespace Vernacular.Yaml

/-- A node of a document. A plain scalar is one without quotes; an absent node is an empty one. -/
inductive Node where
  | scalar (text : String) (plain : Bool)
  | sequence (items : List Node)
  | mapping (pairs : List (Node × Node))
deriving Inhabited

namespace Node

def empty : Node :=
  .scalar "" true

/-- Whether a block entry has nothing before this token. -/
def endsEntry : List Token → Bool
  | .blockEntry :: _ | .blockEnd :: _ => true
  | _ => false

def endsPart : List Token → Bool
  | .key :: _ | .value :: _ | .blockEnd :: _ => true
  | _ => false

def endsFlowKey (close : Token) : List Token → Bool
  | .value :: _ | .flowEntry :: _ => true
  | t :: _ => t = close
  | [] => false

def endsFlowValue (close : Token) : List Token → Bool
  | .flowEntry :: _ => true
  | t :: _ => t = close
  | [] => false

mutual

/-- Reads a node. Block collections are read only where `block` allows them, and a sequence at the
indentation of the mapping it is a value of only where `indentless` does. -/
def read (block indentless : Bool) : Nat → List Token → Option (Node × List Token)
  | 0, _ => none
  | fuel + 1, ts =>
    match ts with
    | .scalar text plain :: rest => some (.scalar text plain, rest)
    | .flowSequence :: rest => readFlowSequence true fuel rest
    | .flowMapping :: rest => readFlowMapping true fuel rest
    | .blockSequence :: rest => if block then readBlockSequence fuel rest else none
    | .blockMapping :: rest => if block then readBlockMapping fuel rest else none
    | .blockEntry :: _ => if indentless then readIndentless fuel ts else none
    | _ => none

def readBlockSequence : Nat → List Token → Option (Node × List Token)
  | 0, _ => none
  | fuel + 1, .blockEntry :: rest => do
    let (item, rest) ← if endsEntry rest then some (empty, rest) else read true false fuel rest
    match ← readBlockSequence fuel rest with
    | (.sequence items, rest) => some (.sequence (item :: items), rest)
    | _ => none
  | _ + 1, .blockEnd :: rest => some (.sequence [], rest)
  | _ + 1, _ => none

/-- Reads the entries of a sequence that has no end of its own. -/
def readIndentless : Nat → List Token → Option (Node × List Token)
  | 0, _ => none
  | fuel + 1, .blockEntry :: rest => do
    let (item, rest) ←
      if endsEntry rest || endsPart rest then some (empty, rest) else read true false fuel rest
    match ← readIndentless fuel rest with
    | (.sequence items, rest) => some (.sequence (item :: items), rest)
    | _ => none
  | _ + 1, rest => some (.sequence [], rest)

def readBlockMapping : Nat → List Token → Option (Node × List Token)
  | 0, _ => none
  | fuel + 1, .key :: rest => do
    let (key, rest) ← if endsPart rest then some (empty, rest) else read true true fuel rest
    let (value, rest) ← readBlockValue fuel rest
    match ← readBlockMapping fuel rest with
    | (.mapping pairs, rest) => some (.mapping ((key, value) :: pairs), rest)
    | _ => none
  | _ + 1, .blockEnd :: rest => some (.mapping [], rest)
  | _ + 1, _ => none

def readBlockValue : Nat → List Token → Option (Node × List Token)
  | 0, _ => none
  | fuel + 1, .value :: rest =>
    if endsPart rest then some (empty, rest) else read true true fuel rest
  | _ + 1, rest => some (empty, rest)

/-- Reads the items of a flow sequence up to its end. An item may be a pair. If its key is marked
and empty, the token behind the mark counts as part of it. -/
def readFlowSequence (first : Bool) : Nat → List Token → Option (Node × List Token)
  | 0, _ => none
  | fuel + 1, ts =>
    match ts with
    | .flowSequenceEnd :: rest => some (.sequence [], rest)
    | _ => do
      let ts ← if first then some ts else
        match ts with
        | .flowEntry :: rest => some rest
        | _ => none
      match ts with
      | .flowSequenceEnd :: rest => some (.sequence [], rest)
      | _ =>
        let (item, rest) ← match ts with
          | .key :: rest => do
            let (key, rest) ← if endsFlowKey .flowSequenceEnd rest then some (empty, rest.tail)
              else read false false fuel rest
            let (value, rest) ← readFlowValue .flowSequenceEnd fuel rest
            some (.mapping [(key, value)], rest)
          | _ => read false false fuel ts
        match ← readFlowSequence false fuel rest with
        | (.sequence items, rest) => some (.sequence (item :: items), rest)
        | _ => none

def readFlowMapping (first : Bool) : Nat → List Token → Option (Node × List Token)
  | 0, _ => none
  | fuel + 1, ts =>
    match ts with
    | .flowMappingEnd :: rest => some (.mapping [], rest)
    | _ => do
      let ts ← if first then some ts else
        match ts with
        | .flowEntry :: rest => some rest
        | _ => none
      match ts with
      | .flowMappingEnd :: rest => some (.mapping [], rest)
      | _ =>
        let (pair, rest) ← match ts with
          | .key :: rest => do
            let (key, rest) ← if endsFlowKey .flowMappingEnd rest then some (empty, rest)
              else read false false fuel rest
            let (value, rest) ← readFlowValue .flowMappingEnd fuel rest
            some ((key, value), rest)
          | _ => do
            let (key, rest) ← read false false fuel ts
            some ((key, empty), rest)
        match ← readFlowMapping false fuel rest with
        | (.mapping pairs, rest) => some (.mapping (pair :: pairs), rest)
        | _ => none

def readFlowValue (close : Token) : Nat → List Token → Option (Node × List Token)
  | 0, _ => none
  | fuel + 1, .value :: rest =>
    if endsFlowValue close rest then some (empty, rest) else read false false fuel rest
  | _ + 1, rest => some (empty, rest)

end

def endsDocument : List Token → Bool
  | [] | .documentStart :: _ | .documentEnd :: _ => true
  | _ => false

def readContent (ts : List Token) : Option (Node × List Token) :=
  read true false (2 * ts.length + 2) ts

/-- Reads the first document of a text. Of what follows it, only the next token must be valid. -/
def parse? (s : String) : Option Node := do
  let (node, rest) ← match Token.scan s with
    | [] => some (empty, [])
    | .documentStart :: ts => if endsDocument ts then some (empty, ts) else readContent ts
    | ts => readContent ts
  if rest.head? = some .invalid then none else some node

end Node

end Vernacular.Yaml
