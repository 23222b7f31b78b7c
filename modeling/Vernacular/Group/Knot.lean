import Vernacular.Fault
import Vernacular.Group.Basic
import Vernacular.Term.Rename

/-!
The sentences of a group. Synonyms in a knot with inductive types are encoded inside the inductive
block: each gets an empty placeholder type, and a shorthand that stands for its definition and
mentions the placeholder.
-/

set_option autoImplicit false

namespace Vernacular

def knotMarker : String :=
  "Synonym"

def placeholder (synonym : String) : String :=
  synonym ++ "__raw"

def preamble : List Sentence :=
  [.define
    { name := knotMarker
      binders := [.mk "A" (some .typeSort) true, .mk "_uniq" (some .typeSort) false,
        .mk "x" (some (.var "A")) false]
      type := some (.var "A")
      body := .var "x" },
    .arguments knotMarker ["\x7bA\x7d%type", "_uniq%type", "x%type"]]

def Synonym.definition (s : Synonym) : Definition :=
  { name := s.name, binders := s.params, type := s.kind, body := s.body }

/-- Renames the parameters that clash with `others` to names that are not taken, and gives the
renaming for what the parameters scope over. The kinds see the renaming of earlier parameters. -/
def renameParams (others : List String) :
    List String → Renaming → List Binder → List Binder × Renaming
  | _, m, [] => ([], m)
  | taken, m, .mk x type implicit :: bs =>
    if x ∈ others then
      let y := Identifier.fresh taken x
      let (rest, final) := renameParams others (y :: taken) ((x, y) :: m) bs
      (.mk y (Term.renameType m type) implicit :: rest, final)
    else
      let (rest, final) := renameParams others taken m bs
      (.mk x (Term.renameType m type) implicit :: rest, final)

namespace Group

def otherParams (g : Group) (i : Nat) : List String :=
  g.inductives.flatMap (·.params.map Binder.name) ++
    (g.synonyms.eraseIdx i).flatMap (·.params.map Binder.name)

def knotParams (g : Group) (i : Nat) (s : Synonym) : List Binder × Term :=
  let others := g.otherParams i
  let taken := s.body.names ++ others ++ s.params.map Binder.name
  let (params, m) := renameParams others taken [] s.params
  (params, s.body.rename m)

def shorthand (g : Group) (i : Nat) (s : Synonym) : Shorthand :=
  let (params, body) := g.knotParams i s
  { name := s.name
    term := .lambda params ((Term.var knotMarker).apply [.var (placeholder s.name), body]) }

def knot (g : Group) : List Sentence :=
  g.synonyms.map (fun s => .reserve s.name) ++
    [.block
      (g.inductives ++ g.synonyms.map fun s =>
        { name := placeholder s.name, params := [], type := .typeSort, constructors := [] })
      (g.synonyms.mapIdx g.shorthand)]

/-- The sentences of a group. Synonyms that refer to each other, with no inductive type among them,
have no encoding. -/
def sentences (g : Group) : Except Fault (List Sentence) :=
  match g.kind with
  | .inductives => .ok [.block g.inductives []]
  | .synonym => .ok ((g.synonyms.take 1).map fun s => .define s.definition)
  | .synonyms => .error (.rejected "mutually-recursive type synonyms")
  | .mixed => .ok g.knot
  | .other code => .error (.malformed (.unknownGroup code))

def emit (gs : List Group) : Except Fault (List Sentence) :=
  (gs.mapM sentences).map List.flatten

def needsPreamble (gs : List Group) : Bool :=
  gs.any (·.kind = .mixed)

end Group

end Vernacular
