import Vernacular.Proofs.Conversion
import Vernacular.Proofs.Nameless
import Vernacular.Proofs.Reserved

set_option autoImplicit false

namespace Vernacular

def Term.result : Term → Term
  | .arrow _ cod => cod.result
  | t => t

theorem Term.result_arrows (doms : List Term) {cod : Term} (h : cod.result = cod) :
    (Term.arrows doms cod).result = cod := by
  induction doms with
  | nil => exact h
  | cons t ts ih => exact ih

theorem Term.result_apply_var (f : String) (args : List Term) :
    ((Term.var f).apply args).result = (Term.var f).apply args := by
  cases args <;> rfl

/-- Under the binders of a constructor a name stands for what it stands for under the parameters of
the type alone. -/
def Constructor.Sees (k : Constructor) (params : List String) (p : String) : Prop :=
  Scope.outside.binds (params ++ k.binders.map Binder.name) p =
    Reference.shift^[k.binders.length] (Scope.outside.binds params p)

theorem Constructor.sees_iff {k : Constructor} {params : List String} {p : String} :
    k.Sees params p ↔ p ∉ k.binders.map Binder.name := by
  rw [Sees, Scope.binds_append, ← k.binders.length_map Binder.name]
  by_cases bound : p ∈ k.binders.map Binder.name
  · obtain ⟨i, bounded, found⟩ := Scope.binds_of_mem bound
    simp only [found, bound, not_true_eq_false, iff_false]
    exact (Reference.shift_iterate_ne bounded _).symm
  · simp only [Scope.binds_of_not_mem _ bound, bound, not_false_eq_true]

theorem Table.typeName_of_target?_eq_none {t : Table} {x : String}
    (h : t.target? ⟨x, .type⟩ = none) : t.typeName x = Identifier.escape x := by
  rw [typeName, lookup_eq, h, Option.getD_none]

namespace Surface

def TyVar.name : TyVar → String
  | .mk x _ => x

theorem TyVar.names_lowerAll {t : Table} : ∀ {vs : List TyVar} {bs : List Binder},
    TyVar.lowerAll t vs = .ok bs → bs.map Binder.name = vs.map fun v => t.typeName v.name
  | [], _, h => by
    cases h
    rfl
  | .mk x none :: vs, _, h => by
    simp only [TyVar.lowerAll, bind_eq_ok, pure_eq_ok] at h
    obtain ⟨bs, rest, rfl⟩ := h
    rw [List.map_cons, List.map_cons, TyVar.names_lowerAll rest]
    rfl
  | .mk x (some k) :: vs, _, h => by
    simp only [TyVar.lowerAll, bind_eq_ok, pure_eq_ok] at h
    obtain ⟨kind, -, bs, rest, rfl⟩ := h
    rw [List.map_cons, List.map_cons, TyVar.names_lowerAll rest]
    rfl

theorem DataConstructor.binders_lower {t : Table} {c : DataConstructor} {result : Term}
    {k : Constructor} (h : c.lower t result = .ok k) :
    k.binders.map Binder.name = c.vars.map fun v => t.typeName v.name := by
  obtain ⟨binders, fields, vars, -, rfl⟩ := DataConstructor.lower_parts h
  rw [List.map_map, ← TyVar.names_lowerAll vars]
  exact List.map_congr_left fun b _ => name_hidden b

theorem DataConstructor.result_lower {t : Table} {c : DataConstructor} {f : String}
    {args : List Term} {k : Constructor} (h : c.lower t ((Term.var f).apply args) = .ok k) :
    k.type.result = (Term.var f).apply args := by
  obtain ⟨binders, fields, -, -, rfl⟩ := DataConstructor.lower_parts h
  exact Term.result_arrows fields (Term.result_apply_var f args)

/-- Variables without a target in the table are written the same only if they are the same. -/
theorem exists_same_target_iff_mem {t : Table} {x : String} {vs : List TyVar}
    (plain : ∀ y ∈ x :: vs.map TyVar.name, t.target? ⟨y, .type⟩ = none) :
    (∃ v ∈ vs, t.typeName v.name = t.typeName x) ↔ x ∈ vs.map TyVar.name := by
  obtain ⟨own, others⟩ := List.forall_mem_cons.1 plain
  rw [List.mem_map]
  refine exists_congr fun v => and_congr_right fun listed => ?_
  rw [Table.typeName_of_target?_eq_none own,
    Table.typeName_of_target?_eq_none (others _ (List.mem_map_of_mem listed)),
    Identifier.escape_injective.eq_iff]

/-- The type of a constructor leads to the data type over its parameters. A parameter there is the
parameter of the type iff no binder of the constructor has its name, which one has iff an existential
variable has the same target name; where the table does not rename these variables, iff one is
spelled the same. -/
theorem DataType.params_seen_iff (table : Table) (d : DataType) (body : InductiveBody)
    (converted : d.lower (d.register table) = .ok body) :
    body.params.map Binder.name = d.params.map (fun q => table.typeName q.name) ∧
      List.Forall₂ (fun (c : DataConstructor) (k : Constructor) =>
        k.type.result = (Term.var body.name).apply (body.params.map fun p => .var p.name) ∧
          ∀ q ∈ d.params,
            (k.Sees (body.params.map Binder.name) (table.typeName q.name) ↔
              table.typeName q.name ∉ k.binders.map Binder.name) ∧
            (table.typeName q.name ∈ k.binders.map Binder.name ↔
              ∃ v ∈ c.vars, table.typeName v.name = table.typeName q.name) ∧
            ((∀ y ∈ q.name :: c.vars.map TyVar.name, table.target? ⟨y, .type⟩ = none) →
              (table.typeName q.name ∈ k.binders.map Binder.name ↔
                q.name ∈ c.vars.map TyVar.name)))
        d.constructors body.constructors := by
  have target : (d.register table).typeName = table.typeName :=
    funext (Table.typeName_register table d)
  obtain ⟨-, params, -, each⟩ := d.lower_parts converted
  refine ⟨target ▸ TyVar.names_lowerAll params, (mapM_eq_ok.1 each).imp fun c k lowered => ?_⟩
  have clash : ∀ x, x ∈ k.binders.map Binder.name ↔ ∃ v ∈ c.vars, table.typeName v.name = x := by
    intro x
    rw [DataConstructor.binders_lower lowered, target, List.mem_map]
  refine ⟨DataConstructor.result_lower lowered, fun q _ => ⟨Constructor.sees_iff, clash _, ?_⟩⟩
  intro plain
  rw [clash, exists_same_target_iff_mem plain]

/-- A type over `a` of which one constructor hides a variable `x` and the other a variable `a`. -/
def shadowedBox : DataType :=
  ⟨"Box", [.mk "a" none], none,
    [⟨{}, "Keep", [.mk "x" none], [], .ordinary, [.var {} "x", .var {} "a"]⟩,
      ⟨{}, "Hide", [.mk "a" none], [], .ordinary, [.var {} "a"]⟩]⟩

theorem shadowedBox_params_seen :
    ∃ body keep hide, shadowedBox.lower (shadowedBox.register .initial) = .ok body ∧
      body.params.map Binder.name = ["a"] ∧ body.constructors = [keep, hide] ∧
      keep.type.result = .app (.var "Box") [.var "a"] ∧ keep.Sees ["a"] "a" ∧
      hide.type.result = .app (.var "Box") [.var "a"] ∧ ¬ hide.Sees ["a"] "a" := by
  have converted : ∃ body keep hide,
      shadowedBox.lower (shadowedBox.register .initial) = .ok body ∧
        body.constructors = [keep, hide] :=
    ⟨_, _, _, rfl, rfl⟩
  obtain ⟨body, keep, hide, h, constructors⟩ := converted
  obtain ⟨params, each⟩ := DataType.params_seen_iff .initial shadowedBox body h
  rw [constructors] at each
  obtain ⟨⟨keepEnd, kept⟩, ⟨⟨hideEnd, hidden⟩, -⟩⟩ :=
    (List.forall₂_cons.1 each).imp_right List.forall₂_cons.1
  have param : TyVar.mk "a" none ∈ shadowedBox.params := List.mem_singleton_self _
  have plain : ∀ y ∈ ["a", "x"], Table.initial.target? ⟨y, .type⟩ = none :=
    List.forall_mem_cons.2 ⟨rfl, List.forall_mem_singleton.2 rfl⟩
  obtain ⟨seen, -, spelled⟩ := kept _ param
  obtain ⟨unseen, clash, -⟩ := hidden _ param
  cases h
  refine ⟨_, _, _, rfl, params, constructors, keepEnd, seen.2 ?_, hideEnd, mt unseen.1 ?_⟩
  · exact mt (spelled plain).1 (by decide)
  · exact not_not.2 (clash.2 ⟨.mk "a" none, List.mem_singleton_self _, rfl⟩)

/-- The existential variable `a` captures the parameter in the result type of its constructor. -/
theorem shadowedBox_captures_param :
    (shadowedBox.params.map TyVar.name).Nodup ∧
      ∃ body keep hide, shadowedBox.lower (shadowedBox.register .initial) = .ok body ∧
        body.print = "Box a : Type :=\n  | Mk_Keep \x7bx\x7d : x -> a -> Box a" ++
          "\n  | Mk_Hide \x7ba\x7d : a -> Box a" ∧
        body.constructors = [keep, hide] ∧ "a" ∈ body.params.map Binder.name ∧
        "a" ∈ hide.binders.map Binder.name ∧ ¬ hide.Sees (body.params.map Binder.name) "a" :=
  ⟨by decide, _, _, _, rfl, by rfl, rfl, by decide, by decide,
    mt Constructor.sees_iff.1 (not_not.2 (by decide))⟩

end Surface

end Vernacular
