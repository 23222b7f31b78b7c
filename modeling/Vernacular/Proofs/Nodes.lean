import Vernacular.Proofs.FreeNames
import Vernacular.Proofs.Outcome
import Vernacular.Proofs.Subterms

set_option autoImplicit false

namespace Vernacular

namespace Identifier

def EndsLow (x : String) : Prop :=
  ∃ y, x = y ++ "_"

theorem underscored_succ (x : String) (k : Nat) :
    underscored x (k + 1) = underscored x k ++ "_" := by
  simp [underscored, List.replicate_succ', String.ofList_append, String.append_assoc]

theorem EndsLow.underscored {x : String} (h : EndsLow x) (k : Nat) : EndsLow (underscored x k) := by
  cases k with
  | zero => simpa [Identifier.underscored] using h
  | succ k => exact ⟨_, underscored_succ x k⟩

theorem endsLow_of_mem_freshArguments {n : Nat} {avoid : List String} {a : String}
    (h : a ∈ freshArguments n avoid) : EndsLow a := by
  obtain ⟨i, -, rfl⟩ := List.mem_map.1 h
  obtain ⟨k, eq, -⟩ := fresh_spec avoid ("arg_" ++ toString i ++ "__")
  have low : "__" = "_" ++ "_" := rfl
  have stem : EndsLow ("arg_" ++ toString i ++ "__") :=
    ⟨"arg_" ++ toString i ++ "_", by rw [low, ← String.append_assoc]⟩
  rw [eq]
  exact stem.underscored k

end Identifier

/-- The patterns that conversion over a table makes. -/
inductive Pattern.Node (table : Table) : Pattern → Prop
  | wild : Node table .wild
  | var {x : String} : Node table (.var (table.valueName x))
  | named {p : Pattern} {x : String} (inner : p.Node table) :
      Node table (.named p (table.valueName x))
  | con {c : String} {ps : List Pattern} (args : ∀ p ∈ ps, p.Node table) : Node table (.con c ps)
  | num {n : Int} (natural : 0 ≤ n) : Node table (.num (some n))
  | str {s : String} : Node table (.str s)

mutual

theorem Pattern.Node.rename {table : Table} (m : Renaming) :
    ∀ {p : Pattern}, p.Node table → (p.rename m).Node table
  | .wild, h => h
  | .var _, h => h
  | .named p _, h => by
    cases h with
    | named inner => exact .named (inner.rename m)
  | .con _ ps, h => by
    cases h with
    | con args => exact .con (Pattern.Node.renameAll m args)
  | .num _, h => h
  | .str _, h => h

theorem Pattern.Node.renameAll {table : Table} (m : Renaming) :
    ∀ {ps : List Pattern}, (∀ p ∈ ps, p.Node table) → ∀ p ∈ Pattern.renameAll m ps, p.Node table
  | [], _ => List.forall_mem_nil _
  | _ :: _, h => by
    obtain ⟨first, rest⟩ := List.forall_mem_cons.1 h
    exact List.forall_mem_cons.2 ⟨first.rename m, Pattern.Node.renameAll m rest⟩

end

theorem Pattern.length_renameAll (m : Renaming) (ps : List Pattern) :
    (renameAll m ps).length = ps.length := by
  induction ps with
  | nil => rfl
  | cons p ps ih => rw [renameAll, List.length_cons, ih, List.length_cons]

namespace Term

def isApp : Term → Bool
  | .app _ _ => true
  | _ => false

/-- The names of quantified types: targets of type variables that the source binds, or names that
look like variables. -/
def QuantifiedName (table : Table) (vars : String → Prop) (y : String) : Prop :=
  ∃ x, y = table.typeName x ∧ (vars x ∨ Surface.isVariableName y)

/-- The nodes that conversion over a table makes. The arms of a match fit its scrutinees if the
equations of functions are `uniform`, and type variables bound in the source are among `vars`. -/
inductive Node (table : Table) (uniform : Prop) (vars : String → Prop) : Term → Prop
  | var {x : String} : Node table uniform vars (.var x)
  | str {s : String} : Node table uniform vars (.str s)
  | hole : Node table uniform vars .hole
  | num {n : Int} (natural : 0 ≤ n) : Node table uniform vars (.num (some n))
  | parens {t : Term} : Node table uniform vars (.parens t)
  | arrow {t u : Term} : Node table uniform vars (.arrow t u)
  | ascribed {t u : Term} : Node table uniform vars (.ascribed t u)
  | ite {c t u : Term} : Node table uniform vars (.ite c t u)
  | app {f : Term} {args : List Term} (head : f.isApp = false) (nonempty : args ≠ []) :
      Node table uniform vars (.app f args)
  | lam {args : List String} {body : Term} (nonempty : args ≠ [])
      (fresh : ∀ a ∈ args, Identifier.EndsLow a) :
      Node table uniform vars (.lam (args.map .plain) body)
  | fix {x : String} {args : List String} {body : Term} (nonempty : args ≠ [])
      (fresh : ∀ a ∈ args, Identifier.EndsLow a) :
      Node table uniform vars (.fix (table.valueName x) (args.map .plain) none body)
  | caseOf {ts : List Term} {arms : List Arm} (nonempty : ts ≠ [])
      (patterns : ∀ ps ∈ arms.map Arm.patterns, ∀ p ∈ ps, p.Node table)
      (fits : uniform → ∀ ps ∈ arms.map Arm.patterns, ps.length = ts.length) :
      Node table uniform vars (.caseOf ts arms)
  | pi {bs : List Binder} {t : Term} (nonempty : bs ≠ [])
      (names : ∀ x ∈ bs.map Binder.name, QuantifiedName table vars x) :
      Node table uniform vars (.pi bs t)
  | letIn {x : String} {bs : List Binder} {ty : Option Term} {v t : Term}
      (names : ∀ x ∈ bs.map Binder.name, QuantifiedName table vars x) :
      Node table uniform vars (.letIn (table.valueName x) bs ty v t)

theorem isApp_rename (m : Renaming) (t : Term) : (t.rename m).isApp = t.isApp := by
  cases t <;> rfl

theorem renameAll_eq_map (m : Renaming) (ts : List Term) : renameAll m ts = ts.map (rename m) := by
  induction ts with
  | nil => rfl
  | cons t ts ih => rw [renameAll, ih, List.map_cons]

theorem renameBinders_plain (m : Renaming) (args : List String) :
    renameBinders m (args.map .plain) = args.map .plain := by
  induction args generalizing m with
  | nil => rfl
  | cons a args ih => simp only [List.map_cons, Binder.plain, renameBinders, renameType, ih]

theorem renameBinders_ne_nil {m : Renaming} {bs : List Binder} (h : bs ≠ []) :
    renameBinders m bs ≠ [] := by
  obtain ⟨⟨x, ty, i⟩, rest, rfl⟩ := List.exists_cons_of_ne_nil h
  exact List.cons_ne_nil _ _

theorem patterns_renameArms (m : Renaming) (arms : List Arm) :
    (renameArms m arms).map Arm.patterns = arms.map fun a => Pattern.renameAll m a.patterns := by
  induction arms with
  | nil => rfl
  | cons a arms ih =>
    obtain ⟨ps, t⟩ := a
    simp only [renameArms, List.map_cons, ih, Arm.patterns]

section Node

variable {table : Table} {uniform : Prop} {vars : String → Prop}

theorem Node.rename (m : Renaming) {t : Term} (h : t.Node table uniform vars) :
    (t.rename m).Node table uniform vars := by
  cases h with
  | var => exact .var
  | str => exact .str
  | hole => exact .hole
  | num natural => exact .num natural
  | parens => exact .parens
  | arrow => exact .arrow
  | ascribed => exact .ascribed
  | ite => exact .ite
  | app head nonempty =>
    refine .app (by rwa [isApp_rename]) ?_
    rwa [renameAll_eq_map, ne_eq, List.map_eq_nil_iff]
  | lam nonempty fresh =>
    rw [Term.rename, renameBinders_plain]
    exact .lam nonempty fresh
  | fix nonempty fresh =>
    rw [Term.rename, renameBinders_plain]
    exact .fix nonempty fresh
  | @caseOf ts arms nonempty patterns fits =>
    refine .caseOf (by rwa [renameAll_eq_map, ne_eq, List.map_eq_nil_iff]) ?_ fun h => ?_
    · rw [patterns_renameArms, List.forall_mem_map]
      intro a ha
      exact Pattern.Node.renameAll m (patterns _ (List.mem_map_of_mem ha))
    · rw [patterns_renameArms, renameAll_eq_map, List.length_map, List.forall_mem_map]
      intro a ha
      rw [Pattern.length_renameAll]
      exact fits h _ (List.mem_map_of_mem ha)
  | pi nonempty names =>
    exact .pi (renameBinders_ne_nil nonempty) (by rwa [names_renameBinders])
  | letIn names => exact .letIn (by rwa [names_renameBinders])

/-- All nodes of a term are such as conversion makes. -/
def Made (table : Table) (uniform : Prop) (vars : String → Prop) (t : Term) : Prop :=
  t.Every (Node table uniform vars)

theorem Made.rename (m : Renaming) {t : Term} (h : t.Made table uniform vars) :
    (t.rename m).Made table uniform vars :=
  Every.rename (fun m _ => Node.rename m) m h

theorem made_var (x : String) : (var x).Made table uniform vars :=
  every_leaf rfl .var

theorem Made.apply {f : Term} {args : List Term} (head : f.Made table uniform vars)
    (parts : ∀ t ∈ args, t.Made table uniform vars) : (f.apply args).Made table uniform vars := by
  unfold Term.apply
  split
  · exact head
  · obtain ⟨node, function, front⟩ := every_app.1 head
    cases node with
    | app single nonempty =>
      refine every_app.2 ⟨.app single ?_, function, List.forall_mem_append.2 ⟨front, parts⟩⟩
      exact List.append_ne_nil_of_left_ne_nil nonempty _
  · rename_i single nonempty
    refine every_app.2 ⟨.app ?_ nonempty, head, parts⟩
    cases f with
    | app g front => exact absurd rfl (single g front)
    | _ => rfl

theorem Made.forAll {bs : List Binder} {t : Term}
    (names : ∀ x ∈ bs.map Binder.name, QuantifiedName table vars x)
    (types : ∀ b ∈ bs, ∀ u ∈ b.type, u.Made table uniform vars)
    (body : t.Made table uniform vars) : (forAll bs t).Made table uniform vars := by
  unfold Term.forAll
  split
  · exact body
  · rename_i nonempty
    exact every_pi.2 ⟨.pi (by simpa using nonempty) names, types, body⟩

theorem Made.splitForAll {t : Term} (h : t.Made table uniform vars) :
    (∀ x ∈ t.splitForAll.1.map Binder.name, QuantifiedName table vars x) ∧
      (∀ b ∈ t.splitForAll.1, ∀ u ∈ b.type, u.Made table uniform vars) ∧
        t.splitForAll.2.Made table uniform vars := by
  cases t with
  | pi bs t =>
    obtain ⟨node, types, body⟩ := every_pi.1 h
    cases node with
    | pi _ names => exact ⟨names, types, body⟩
  | _ => exact ⟨List.forall_mem_nil _, List.forall_mem_nil _, h⟩

theorem made_foldl_app {x : String} {ts : List Term} {t : Term} (first : t.Made table uniform vars)
    (rest : ∀ u ∈ ts, u.Made table uniform vars) :
    (ts.foldl (fun front u => .app (.var x) [front, u]) t).Made table uniform vars := by
  induction ts generalizing t with
  | nil => exact first
  | cons u ts ih =>
    obtain ⟨hu, rest⟩ := List.forall_mem_cons.1 rest
    refine ih (every_app.2 ⟨.app rfl (List.cons_ne_nil _ _), made_var x, ?_⟩) rest
    exact List.forall_mem_cons.2 ⟨first, List.forall_mem_singleton.2 hu⟩

end Node

end Term

section Made

variable {table : Table} {uniform : Prop} {vars : String → Prop}

structure Definition.Made (table : Table) (uniform : Prop) (vars : String → Prop)
    (d : Definition) : Prop where
  name : ∃ x, d.name = table.valueName x
  binders : ∀ x ∈ d.binders.map Binder.name, Term.QuantifiedName table vars x
  kinds : ∀ b ∈ d.binders, ∀ u ∈ b.type, u.Made table uniform vars
  type : ∀ u ∈ d.type, u.Made table uniform vars
  body : d.body.Made table uniform vars

theorem Definition.made_nest {ds : List Definition} {body : Term}
    (definitions : ∀ d ∈ ds, d.Made table uniform vars) (inner : body.Made table uniform vars) :
    (ds.foldr letIn body).Made table uniform vars := by
  induction ds with
  | nil => exact inner
  | cons d ds ih =>
    obtain ⟨first, rest⟩ := List.forall_mem_cons.1 definitions
    obtain ⟨x, name⟩ := first.name
    have node : Term.Node table uniform vars (d.letIn (ds.foldr letIn body)) := by
      rw [letIn, name]
      exact .letIn first.binders
    exact Term.every_letIn.2 ⟨node, ⟨⟨first.kinds, first.type⟩, first.body⟩, ih rest⟩

structure Arm.MadeAll (table : Table) (uniform : Prop) (vars : String → Prop) (arms : List Arm) :
    Prop where
  patterns : ∀ ps ∈ arms.map Arm.patterns, ∀ p ∈ ps, p.Node table
  bodies : ∀ a ∈ arms, a.body.Made table uniform vars

namespace FunctionLiteral

variable {arms : List Arm}

theorem made_bodyFor {args : List String} (nonempty : args ≠ [])
    (made : Arm.MadeAll table uniform vars arms)
    (fits : uniform → ∀ ps ∈ arms.map Arm.patterns, ps.length = args.length) :
    (bodyFor args arms).Made table uniform vars := by
  have general : (Term.caseOf (args.map .var) arms).Made table uniform vars := by
    refine Term.every_caseOf.2 ⟨.caseOf (by simpa using nonempty) made.patterns ?_, ?_, made.bodies⟩
    · simpa only [List.length_map] using fits
    · rw [List.forall_mem_map]
      exact fun a _ => Term.made_var a
  unfold bodyFor
  split
  · -- a single arm of variables is its body with the arguments in their place
    split
    · exact (made.bodies _ (List.mem_singleton_self _)).rename _
    · exact general
  · exact general

theorem types_plain {args : List String} {P : Term → Prop} :
    ∀ b ∈ args.map Binder.plain, ∀ u ∈ b.type, P u := by
  rw [List.forall_mem_map]
  exact fun a _ => nofun

theorem length_argumentsFor (arms : List Arm) :
    (argumentsFor arms).length = (arms.head?.map (·.patterns.length)).getD 0 :=
  length_freshArguments _ _

theorem endsLow_argumentsFor : ∀ a ∈ argumentsFor arms, Identifier.EndsLow a :=
  fun _ => Identifier.endsLow_of_mem_freshArguments

theorem made_ofArms (nonempty : argumentsFor arms ≠ [])
    (made : Arm.MadeAll table uniform vars arms)
    (fits : uniform → ∀ ps ∈ arms.map Arm.patterns, ps.length = (argumentsFor arms).length) :
    (ofArms arms).term.Made table uniform vars :=
  Term.every_lam.2
    ⟨.lam nonempty endsLow_argumentsFor, types_plain, made_bodyFor nonempty made fits⟩

theorem made_recursive (x : String) (nonempty : argumentsFor arms ≠ [])
    (made : Arm.MadeAll table uniform vars arms)
    (fits : uniform → ∀ ps ∈ arms.map Arm.patterns, ps.length = (argumentsFor arms).length) :
    ((ofArms arms).recursive (table.valueName x)).Made table uniform vars := by
  unfold recursive
  split
  · refine Term.every_fix.2 ⟨.fix nonempty endsLow_argumentsFor, ⟨types_plain, nofun⟩, ?_⟩
    exact made_bodyFor nonempty made fits
  · exact made_ofArms nonempty made fits

end FunctionLiteral

end Made

end Vernacular
