import Vernacular.Term.Basic

set_option autoImplicit false

namespace Vernacular

namespace Term

def isAtom : Term → Bool
  | .var _ | .num _ | .str _ | .parens _ | .hole | .sort _ => true
  | _ => false

def isDomain : Term → Bool
  | .arrow _ _ | .pi _ _ => false
  | _ => true

/-- A string literal, in which a double quote is written twice. -/
def quotedString (s : String) : String :=
  "\"" ++ String.ofList (s.toList.flatMap fun c => if c = '"' then ['"', '"'] else [c]) ++ "\""

mutual

def print : Term → String
  | .missing => "<nil>"
  | .foreign kind => "<" ++ kind ++ ">"
  | .var x => x
  | .app f ts => parenthesized f.isAtom f.print ++ printArgs ts
  | .lam bs t => "fun" ++ printBinders bs ++ " => " ++ t.print
  | .fix x bs ty t => "fix " ++ x ++ printBinders bs ++ printType ty ++ " := " ++ t.print
  | .caseOf ts as => "match " ++ printCommas ts ++ " with" ++ printArms as ++ " end"
  | .num n => decimal n
  | .str s => quotedString s
  | .parens t => "(" ++ t.print ++ ")"
  | .pi bs t => "forall" ++ printBinders bs ++ ", " ++ t.print
  | .arrow t u => parenthesized t.isDomain t.print ++ " -> " ++ u.print
  | .ite c t u => "if " ++ c.print ++ " then " ++ t.print ++ " else " ++ u.print
  | .letIn x bs ty v t =>
    "let " ++ x ++ printBinders bs ++ printType ty ++ " := " ++ v.print ++ " in " ++ t.print
  | .ascribed t u => parenthesized t.isAtom t.print ++ " : " ++ u.print
  | .hole => "_"
  | .sort s => s

def printArgs : List Term → String
  | [] => ""
  | t :: ts => " " ++ parenthesized t.isAtom t.print ++ printArgs ts

def printCommas : List Term → String
  | [] => ""
  | [t] => t.print
  | t :: ts => t.print ++ ", " ++ printCommas ts

def printType : Option Term → String
  | none => ""
  | some t => " : " ++ t.print

/-- A telescope, each binder after a blank: `x`, `(x : T)`, or in braces when implicit. -/
def printBinders : List Binder → String
  | [] => ""
  | .mk x none false :: bs => " " ++ x ++ printBinders bs
  | .mk x ty implicit :: bs =>
    (if implicit then " \x7b" else " (") ++ x ++ printType ty ++
      (if implicit then "\x7d" else ")") ++ printBinders bs

def printArms : List Arm → String
  | [] => ""
  | .mk ps t :: as =>
    " | " ++ ", ".intercalate (ps.map Pattern.print) ++ " => " ++ t.print ++ printArms as

end

end Term

end Vernacular
