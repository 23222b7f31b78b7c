import Vernacular.Term.Basic

set_option autoImplicit false

namespace Vernacular.Term

mutual

/-- Replaces each free name in the domain of `m`; constructors in patterns count as free. -/
def rename (m : Renaming) : Term → Term
  | .var x => .var (m.apply x)
  | .app f ts => .app (f.rename m) (renameAll m ts)
  | .lam bs t => .lam (renameBinders m bs) (t.rename (m.without (bs.map Binder.name)))
  | .fix x bs ty t =>
    .fix x (renameBinders (m.without [x]) bs)
      (renameType (m.without (x :: bs.map Binder.name)) ty)
      (t.rename (m.without (x :: bs.map Binder.name)))
  | .caseOf ts as => .caseOf (renameAll m ts) (renameArms m as)
  | .parens t => .parens (t.rename m)
  | .pi bs t => .pi (renameBinders m bs) (t.rename (m.without (bs.map Binder.name)))
  | .arrow t u => .arrow (t.rename m) (u.rename m)
  | .ite c t u => .ite (c.rename m) (t.rename m) (u.rename m)
  | .letIn x bs ty v t =>
    .letIn x (renameBinders m bs) (renameType (m.without (bs.map Binder.name)) ty)
      (v.rename (m.without (bs.map Binder.name))) (t.rename (m.without [x]))
  | .ascribed t u => .ascribed (t.rename m) (u.rename m)
  | t => t

def renameAll (m : Renaming) : List Term → List Term
  | [] => []
  | t :: ts => t.rename m :: renameAll m ts

def renameType (m : Renaming) : Option Term → Option Term
  | none => none
  | some t => some (t.rename m)

/-- Renames inside the types of a telescope, each of which sees the binders before it. -/
def renameBinders (m : Renaming) : List Binder → List Binder
  | [] => []
  | .mk x ty i :: bs => .mk x (renameType m ty) i :: renameBinders (m.without [x]) bs

def renameArms (m : Renaming) : List Arm → List Arm
  | [] => []
  | .mk ps t :: as =>
    .mk (Pattern.renameAll m ps) (t.rename (m.without (Pattern.boundAll ps))) :: renameArms m as

end

end Vernacular.Term
