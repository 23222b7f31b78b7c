import Vernacular.Term.Print

set_option autoImplicit false

namespace Vernacular

structure Constructor where
  name : String
  binders : List Binder
  type : Term

/-- One inductive type of a block; its parameters scope over all the rest. -/
structure InductiveBody where
  name : String
  params : List Binder
  type : Term
  constructors : List Constructor

/-- A name that stands for a term inside an inductive block and after it. -/
structure Shorthand where
  name : String
  term : Term

structure Definition where
  name : String
  binders : List Binder
  type : Option Term
  body : Term

/-- A sentence; `missing` stands where a sentence was never filled in. -/
inductive Sentence where
  | missing
  | block (bodies : List InductiveBody) (shorthands : List Shorthand)
  | define (definition : Definition)
  | reserve (name : String)
  | arguments (name : String) (args : List String)
  | comment (text : String)
  | assume (name : String) (type : Term)

def Definition.letIn (d : Definition) (body : Term) : Term :=
  .letIn d.name d.binders d.type d.body body

def Constructor.print (c : Constructor) : String :=
  "\n  | " ++ c.name ++ Term.printBinders c.binders ++ " : " ++ c.type.print

def InductiveBody.print (b : InductiveBody) : String :=
  b.name ++ Term.printBinders b.params ++ " : " ++ b.type.print ++ " :=" ++
    String.join (b.constructors.map Constructor.print)

def Shorthand.print (s : Shorthand) : String :=
  "\"'" ++ s.name ++ "'\" := (" ++ s.term.print ++ ")"

/-- Texts in a row, with one word in front of the first and another in front of the others. -/
def introduced (first others : String) : List String → String
  | [] => ""
  | s :: ss => first ++ s ++ String.join (ss.map (others ++ ·))

/-- A comment's text, in which a closing mark is broken up by a blank. -/
def shielded : List Char → List Char
  | [] => []
  | '*' :: ')' :: cs => '*' :: ' ' :: ')' :: shielded cs
  | c :: cs => c :: shielded cs

namespace Sentence

/-- The written form of a sentence. All but comments end in a full stop. -/
def print : Sentence → String
  | .missing => "(* unknown sentence <nil> *)"
  | .block bodies shorthands =>
    introduced "Inductive " "\nwith " (bodies.map InductiveBody.print) ++
      introduced "\nwhere " "\nand   " (shorthands.map Shorthand.print) ++ "."
  | .define d =>
    "Definition " ++ d.name ++ Term.printBinders d.binders ++ Term.printType d.type ++ " := " ++
      d.body.print ++ "."
  | .reserve name => "Reserved Notation \"'" ++ name ++ "'\"."
  | .arguments name args => "Arguments " ++ name ++ " " ++ " ".intercalate args ++ "."
  | .comment text => "(* " ++ String.ofList (shielded text.toList) ++ " *)"
  | .assume name type => "Axiom " ++ name ++ " : " ++ type.print ++ "."

def render (sentences : List Sentence) : String :=
  "\n\n".intercalate (sentences.map print)

end Sentence

end Vernacular
