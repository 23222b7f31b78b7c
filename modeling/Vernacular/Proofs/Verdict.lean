import Vernacular.Proofs.RunParts
import Vernacular.Proofs.Unplaced

set_option autoImplicit false

namespace Vernacular.Surface

section Verdict

variable {α β : Type}

def verdict (r : Except Fault α) : Option (FaultKind × String) :=
  match r with
  | .ok _ => none
  | .error f => some (f.kind, f.description)

theorem verdict_locating (pos : Position) (r : Except Fault α) :
    verdict (Fault.locating pos r) = verdict r := by
  cases r with
  | ok a => rfl
  | error f =>
    change some ((f.located pos).kind, (f.located pos).description) = some (f.kind, f.description)
    unfold Fault.located
    split <;> rfl

theorem verdict_bind {r s : Except Fault α} {k l : α → Except Fault β}
    (first : verdict r = verdict s) (rest : ∀ a b, verdict (k a) = verdict (l b)) :
    verdict (r >>= k) = verdict (s >>= l) := by
  cases r with
  | ok a =>
    cases s with
    | ok b => exact rest a b
    | error g => cases first
  | error f =>
    cases s with
    | ok b => cases first
    | error g => exact first

theorem verdict_last {r s : Except Fault α} {k l : α → β} (h : verdict r = verdict s) :
    verdict (r >>= fun a => pure (k a)) = verdict (s >>= fun a => pure (l a)) :=
  verdict_bind h fun _ _ => rfl

theorem verdict_map {r s : Except Fault α} {k l : α → β} (h : verdict r = verdict s) :
    verdict (r.map k) = verdict (s.map l) :=
  verdict_last h

theorem verdict_forM {xs : List α} {f : α → Except Fault Unit} {move : α → α}
    (each : ∀ x, verdict (f x) = verdict (f (move x))) :
    verdict (xs.forM f) = verdict ((xs.map move).forM f) := by
  induction xs with
  | nil => rfl
  | cons x xs ih => exact verdict_bind (each x) fun _ _ => ih

theorem verdict_mapM {xs : List α} {f g : α → Except Fault β} {move : α → α}
    (each : ∀ x, verdict (f x) = verdict (g (move x))) :
    verdict (xs.mapM f) = verdict ((xs.map move).mapM g) := by
  induction xs with
  | nil => rfl
  | cons x xs ih =>
    rw [List.map_cons, List.mapM_cons, List.mapM_cons]
    exact verdict_bind (each x) fun _ _ => verdict_last ih

end Verdict

section Trees

variable (t u : Table)

mutual

theorem Ty.verdict_unplaced : ∀ ty : Ty, verdict (ty.lower t) = verdict (ty.unplaced.lower u)
  | .var _ _ => rfl
  | .app _ f a => by
    simp only [Ty.lower, Ty.unplaced, verdict_locating]
    exact verdict_bind (Ty.verdict_unplaced f) fun _ _ => verdict_last (Ty.verdict_unplaced a)
  | .arrow _ a r => by
    simp only [Ty.lower, Ty.unplaced, verdict_locating]
    exact verdict_bind (Ty.verdict_unplaced a) fun _ _ => verdict_last (Ty.verdict_unplaced r)
  | .paren _ ty => by
    simp only [Ty.lower, Ty.unplaced, verdict_locating]
    exact verdict_last (Ty.verdict_unplaced ty)
  | .kinded _ ty k => by
    simp only [Ty.lower, Ty.unplaced, verdict_locating]
    exact verdict_bind (Ty.verdict_unplaced ty) fun _ _ => verdict_last (Ty.verdict_unplaced k)
  | .number _ n => by
    simp only [Ty.lower, Ty.unplaced, verdict_locating]
  | .text _ _ => rfl
  | .wildcard _ => rfl
  | .list _ e => by
    simp only [Ty.lower, Ty.unplaced, verdict_locating]
    exact verdict_last (Ty.verdict_unplaced e)
  | .tuple _ sort ts => by
    simp only [Ty.lower, Ty.unplaced, verdict_locating]
    cases sort with
    | boxed => exact verdict_last (Ty.verdict_unplacedAll ts)
    | unboxed => rfl
    | constraint => rfl
  | .quantified _ implicit vs ty => by
    simp only [Ty.lower, Ty.unplaced, verdict_locating]
    refine verdict_bind (Ty.verdict_unplaced ty) fun _ _ => ?_
    have empty : (TyVar.unplacedAll vs).isEmpty = vs.isEmpty := by
      rcases vs with _ | ⟨⟨x, _ | k⟩, vs⟩ <;> rfl
    rw [empty]
    split
    · rfl
    · exact verdict_last (TyVar.verdict_unplacedAll vs)
  | .strict _ ty => by
    simp only [Ty.lower, Ty.unplaced, verdict_locating]
    exact Ty.verdict_unplaced ty
  | .unsupported _ _ => by simp only [Ty.lower, Ty.unplaced, verdict_locating]
  | .unknown _ => by simp only [Ty.lower, Ty.unplaced, verdict_locating]

theorem Ty.verdict_unplacedAll :
    ∀ ts : List Ty, verdict (Ty.lowerAll t ts) = verdict (Ty.lowerAll u (Ty.unplacedAll ts))
  | [] => rfl
  | ty :: ts => by
    simp only [Ty.lowerAll, Ty.unplacedAll]
    exact verdict_bind (Ty.verdict_unplaced ty) fun _ _ => verdict_last (Ty.verdict_unplacedAll ts)

theorem TyVar.verdict_unplacedAll :
    ∀ vs : List TyVar,
      verdict (TyVar.lowerAll t vs) = verdict (TyVar.lowerAll u (TyVar.unplacedAll vs))
  | [] => rfl
  | .mk x none :: vs => by
    simp only [TyVar.lowerAll, TyVar.unplacedAll]
    exact verdict_last (TyVar.verdict_unplacedAll vs)
  | .mk x (some k) :: vs => by
    simp only [TyVar.lowerAll, TyVar.unplacedAll]
    exact verdict_bind (Ty.verdict_unplaced k) fun _ _ =>
      verdict_last (TyVar.verdict_unplacedAll vs)

end

mutual

theorem Pattern.verdict_unplaced :
    ∀ p : Pattern, verdict (p.lower t) = verdict (p.unplaced.lower u)
  | .wild _ => rfl
  | .var _ _ => rfl
  | .paren _ p => by
    simp only [Pattern.lower, Pattern.unplaced, verdict_locating]
    exact Pattern.verdict_unplaced p
  | .strict _ p => by
    simp only [Pattern.lower, Pattern.unplaced, verdict_locating]
    exact Pattern.verdict_unplaced p
  | .named _ x p => by
    simp only [Pattern.lower, Pattern.unplaced, verdict_locating]
    exact verdict_last (Pattern.verdict_unplaced p)
  | .con _ c style ps => by
    simp only [Pattern.lower, Pattern.unplaced, verdict_locating]
    cases style with
    | ordinary => exact verdict_last (Pattern.verdict_unplacedAll ps)
    | between => rfl
    | record => rfl
  | .literal _ _ => by simp only [Pattern.lower, Pattern.unplaced, verdict_locating]
  | .overloaded _ _ _ => by simp only [Pattern.lower, Pattern.unplaced, verdict_locating]
  | .unsupported _ _ => by simp only [Pattern.lower, Pattern.unplaced, verdict_locating]
  | .unknown _ => by simp only [Pattern.lower, Pattern.unplaced, verdict_locating]

theorem Pattern.verdict_unplacedAll :
    ∀ ps : List Pattern,
      verdict (Pattern.lowerAll t ps) = verdict (Pattern.lowerAll u (Pattern.unplacedAll ps))
  | [] => rfl
  | p :: ps => by
    simp only [Pattern.lowerAll, Pattern.unplacedAll]
    exact verdict_bind (Pattern.verdict_unplaced p) fun _ _ =>
      verdict_last (Pattern.verdict_unplacedAll ps)

end

theorem verdict_lowerSignature (signature : Option Ty) :
    verdict (lowerSignature t signature) =
      verdict (lowerSignature u (signature.map Ty.unplaced)) := by
  cases signature with
  | none => rfl
  | some sig => exact verdict_last (sig.verdict_unplaced t u)

end Trees

theorem Equation.verdict_checkAlternative (q : Equation) :
    verdict q.checkAlternative = verdict q.unplaced.checkAlternative := by
  obtain ⟨pos, ps, rhs⟩ := q
  rcases ps with _ | ⟨p, _ | ⟨r, ps⟩⟩
  · exact (verdict_locating ..).trans (verdict_locating ..).symm
  · rfl
  · exact (verdict_locating ..).trans (verdict_locating ..).symm

theorem Equation.verdict_checkLambda (q : Equation) :
    verdict q.checkLambda = verdict q.unplaced.checkLambda := by
  obtain ⟨pos, ps, rhs⟩ := q
  cases ps with
  | nil => exact (verdict_locating ..).trans (verdict_locating ..).symm
  | cons p ps => rfl

theorem Guard.verdict_check (guard : Guard) :
    verdict guard.check = verdict guard.unplaced.check := by
  cases guard with
  | bool pos e => rfl
  | unsupported pos form => exact (verdict_locating ..).trans (verdict_locating ..).symm
  | unknown pos => exact (verdict_locating ..).trans (verdict_locating ..).symm

theorem Alternative.verdict_checkAll (alts : List Alternative) :
    verdict (checkAll alts) = verdict (checkAll (Alternative.unplacedAll alts)) := by
  rw [Alternative.unplacedAll_eq_map, checkAll, checkAll]
  refine verdict_bind (verdict_forM fun a => ?_) fun _ _ => ?_
  · obtain ⟨pos, guards, e⟩ := a
    simp only [Alternative.unplaced, Guard.unplacedAll_eq_map]
    exact verdict_forM Guard.verdict_check
  · rw [List.getLast?_map]
    rcases alts.getLast? with _ | ⟨pos, guards, e⟩
    · rfl
    · have markers : (Guard.unplacedAll guards).all Guard.isTrueMarker =
          guards.all Guard.isTrueMarker := by
        rw [Guard.unplacedAll_eq_map, List.all_map]
        exact congrArg guards.all (funext Guard.isTrueMarker_unplaced)
      simp only [Option.map_some, Alternative.unplaced, markers]
      split
      · rfl
      · exact (verdict_locating ..).trans (verdict_locating ..).symm

section Expressions

variable (t u : Table)

mutual

theorem Expr.verdict_unplaced : ∀ e : Expr, verdict (e.lower t) = verdict (e.unplaced.lower u)
  | .var _ _ => rfl
  | .app _ f a => by
    simp only [Expr.lower, Expr.unplaced, verdict_locating]
    exact verdict_bind (Expr.verdict_unplaced f) fun _ _ => verdict_last (Expr.verdict_unplaced a)
  | .paren _ e => by
    simp only [Expr.lower, Expr.unplaced, verdict_locating]
    exact verdict_last (Expr.verdict_unplaced e)
  | .ite _ rebindable c y n => by
    simp only [Expr.lower, Expr.unplaced, verdict_locating]
    cases rebindable with
    | true => rfl
    | false =>
      exact verdict_bind (Expr.verdict_unplaced c) fun _ _ =>
        verdict_bind (Expr.verdict_unplaced y) fun _ _ => verdict_last (Expr.verdict_unplaced n)
  | .caseOf _ e qs => by
    simp only [Expr.lower, Expr.unplaced, verdict_locating]
    exact verdict_bind (Expr.verdict_unplaced e) fun _ _ =>
      verdict_last (Equation.verdict_lowerAlternatives qs)
  | .literal _ _ => by simp only [Expr.lower, Expr.unplaced, verdict_locating]
  | .overloaded _ _ => by simp only [Expr.lower, Expr.unplaced, verdict_locating]
  | .letIn _ binds e => by
    simp only [Expr.lower, Expr.unplaced, verdict_locating]
    exact verdict_bind (Expr.verdict_unplaced e) fun _ _ =>
      verdict_last (LocalBinds.verdict_unplaced binds)
  | .ascribed _ e sig => by
    simp only [Expr.lower, Expr.unplaced, verdict_locating]
    exact verdict_bind (Expr.verdict_unplaced e) fun _ _ =>
      verdict_last (sig.verdict_unplaced t u)
  | .lambda _ qs => by
    simp only [Expr.lower, Expr.unplaced, verdict_locating]
    refine verdict_bind ?_ fun _ _ => verdict_last (Equation.verdict_lowerAll qs)
    rw [Equation.unplacedAll_eq_map]
    exact verdict_forM Equation.verdict_checkLambda
  | .lambdaCase _ qs => by
    simp only [Expr.lower, Expr.unplaced, verdict_locating]
    refine verdict_bind ?_ fun _ _ => verdict_last (Equation.verdict_lowerAll qs)
    rw [Equation.unplacedAll_eq_map]
    exact verdict_forM Equation.verdict_checkAlternative
  | .tick _ _ e => by
    simp only [Expr.lower, Expr.unplaced, verdict_locating]
    exact Expr.verdict_unplaced e
  | .unsupported _ _ => by simp only [Expr.lower, Expr.unplaced, verdict_locating]
  | .unknown _ => by simp only [Expr.lower, Expr.unplaced, verdict_locating]

theorem Equation.verdict_lowerAlternatives :
    ∀ qs : List Equation, verdict (Equation.lowerAlternatives t qs) =
      verdict (Equation.lowerAlternatives u (Equation.unplacedAll qs))
  | [] => rfl
  | .mk pos ps rhs :: qs => by
    simp only [Equation.lowerAlternatives, Equation.unplacedAll, Equation.unplaced]
    exact verdict_bind (Equation.verdict_checkAlternative (.mk pos ps rhs)) fun _ _ =>
      verdict_bind (Pattern.verdict_unplacedAll t u ps) fun _ _ =>
        verdict_bind (Rhs.verdict_unplaced rhs) fun _ _ =>
          verdict_last (Equation.verdict_lowerAlternatives qs)

theorem Equation.verdict_lowerAll :
    ∀ qs : List Equation, verdict (Equation.lowerAll t qs) =
      verdict (Equation.lowerAll u (Equation.unplacedAll qs))
  | [] => rfl
  | .mk pos ps rhs :: qs => by
    simp only [Equation.lowerAll, Equation.unplacedAll, Equation.unplaced,
      Equation.isEmpty_unplacedAll]
    refine verdict_bind (Pattern.verdict_unplacedAll t u ps) fun _ _ =>
      verdict_bind ?_ fun _ _ => ?_
    · rw [verdict_locating, verdict_locating]
      exact Rhs.verdict_unplaced rhs
    · split
      · rfl
      · exact verdict_last (Equation.verdict_lowerAll qs)

theorem Rhs.verdict_unplaced : ∀ rhs : Rhs, verdict (rhs.lower t) = verdict (rhs.unplaced.lower u)
  | .mk alts binds => by
    simp only [Rhs.lower, Rhs.unplaced]
    exact verdict_bind (Alternative.verdict_checkAll alts) fun _ _ =>
      verdict_bind (Alternative.verdict_lowerChain alts) fun _ _ =>
        verdict_last (LocalBinds.verdict_unplaced binds)

theorem Alternative.verdict_lowerChain :
    ∀ alts : List Alternative, verdict (Alternative.lowerChain t alts) =
      verdict (Alternative.lowerChain u (Alternative.unplacedAll alts))
  | [] => rfl
  | .mk pos guards e :: alts => by
    simp only [Alternative.lowerChain, Alternative.unplacedAll, Alternative.unplaced,
      Alternative.isEmpty_unplacedAll]
    split
    · exact Expr.verdict_unplaced e
    · exact verdict_bind (Guard.verdict_lowerAll guards) fun _ _ =>
        verdict_bind (Expr.verdict_unplaced e) fun _ _ =>
          verdict_last (Alternative.verdict_lowerChain alts)

theorem Guard.verdict_unplaced :
    ∀ guard : Guard, verdict (guard.lower t) = verdict (guard.unplaced.lower u)
  | .bool _ e => by
    simp only [Guard.lower, Guard.unplaced, Expr.isTrueMarker_unplaced]
    split
    · rfl
    · exact Expr.verdict_unplaced e
  | .unsupported _ _ => by simp only [Guard.lower, Guard.unplaced, verdict_locating]
  | .unknown _ => by simp only [Guard.lower, Guard.unplaced, verdict_locating]

theorem Guard.verdict_lowerAll :
    ∀ guards : List Guard,
      verdict (Guard.lowerAll t guards) = verdict (Guard.lowerAll u (Guard.unplacedAll guards))
  | [] => rfl
  | guard :: guards => by
    simp only [Guard.lowerAll, Guard.unplacedAll]
    exact verdict_bind (Guard.verdict_unplaced guard) fun _ _ =>
      verdict_last (Guard.verdict_lowerAll guards)

theorem LocalBinds.verdict_unplaced :
    ∀ binds : LocalBinds, verdict (binds.lower t) = verdict (binds.unplaced.lower u)
  | .mk _ implicitParams bs signatures => by
    simp only [LocalBinds.lower, LocalBinds.unplaced]
    split
    · rw [verdict_locating, verdict_locating]
    · exact Binding.verdict_lowerAll signatures bs

theorem Binding.verdict_lowerAll (signatures : List (String × Ty)) :
    ∀ bs : List Binding, verdict (Binding.lowerAll t signatures bs) =
      verdict (Binding.lowerAll u (signatures.map fun s => (s.1, s.2.unplaced))
        (Binding.unplacedAll bs))
  | [] => rfl
  | .mk pos x qs :: bs => by
    simp only [Binding.lowerAll, Binding.unplacedAll, Binding.unplaced, lookup_map_types]
    exact verdict_bind (Binding.verdict_unplaced (signatures.lookup x) (.mk pos x qs)) fun _ _ =>
      verdict_last (Binding.verdict_lowerAll signatures bs)

theorem Binding.verdict_unplaced (signature : Option Ty) :
    ∀ b : Binding, verdict (b.lower t signature) =
      verdict (b.unplaced.lower u (signature.map Ty.unplaced))
  | .mk pos x [] => by
    rw [Binding.unplaced, Binding.lower, Equation.unplacedAll, Binding.lower, verdict_locating,
      verdict_locating]
    exact verdict_bind (verdict_lowerSignature t u signature) fun _ _ => rfl
  | .mk pos x [.mk place [] rhs] => by
    rw [Binding.unplaced, Binding.lower, Equation.unplacedAll, Equation.unplacedAll,
      Equation.unplaced, Pattern.unplacedAll, Binding.lower, verdict_locating, verdict_locating]
    exact verdict_bind (verdict_lowerSignature t u signature) fun _ _ =>
      verdict_last (Rhs.verdict_unplaced rhs)
  | .mk pos x (.mk place [] rhs :: q :: qs) => by
    have arity := Equation.all_isEmpty_unplacedAll (.mk place [] rhs :: q :: qs)
    simp only [Equation.unplacedAll, Equation.unplaced, Pattern.unplacedAll] at arity
    rw [Binding.unplaced, Equation.unplacedAll, Equation.unplacedAll, Equation.unplaced,
      Pattern.unplacedAll, Binding.lower, Binding.lower, verdict_locating, verdict_locating]
    · refine verdict_bind (verdict_lowerSignature t u signature) fun _ _ => verdict_last ?_
      rw [arity]
      split
      · rfl
      · rfl
    · nofun
    · nofun
  | .mk pos x (.mk place (p :: ps) rhs :: qs) => by
    have equations := Equation.verdict_lowerAll (.mk place (p :: ps) rhs :: qs)
    rw [Equation.unplacedAll, Equation.unplaced, Pattern.unplacedAll] at equations
    rw [Binding.unplaced, Equation.unplacedAll, Equation.unplaced, Pattern.unplacedAll,
      Binding.lower, Binding.lower, verdict_locating, verdict_locating]
    · exact verdict_bind (verdict_lowerSignature t u signature) fun _ _ =>
        verdict_last (verdict_map equations)
    · nofun
    · nofun

end

end Expressions

section Declarations

variable (t u : Table)

theorem DataConstructor.verdict_unplaced (c : DataConstructor) (result other : Term) :
    verdict (c.lower t result) = verdict (c.unplaced.lower u other) := by
  obtain ⟨pos, name, vs, context, style, fields⟩ := c
  cases context with
  | cons _ _ => exact (verdict_locating pos (.error _)).trans (verdict_locating {} (.error _)).symm
  | nil =>
    by_cases record : style = .record
    · subst record
      exact (verdict_locating pos (.error _)).trans (verdict_locating {} (.error _)).symm
    · simp only [DataConstructor.lower, DataConstructor.unplaced, Ty.unplacedAll, List.isEmpty_nil,
        Bool.not_true, Bool.false_eq_true, record, if_false]
      exact verdict_bind (TyVar.verdict_unplacedAll t u vs) fun _ _ =>
        verdict_last (Ty.verdict_unplacedAll t u fields)

theorem DataType.verdict_unplaced (d : DataType) :
    verdict (d.lower t) = verdict (d.unplaced.lower u) := by
  have kind : verdict (d.lowerKind t) = verdict (d.unplaced.lowerKind u) := by
    unfold DataType.lowerKind DataType.unplaced
    cases d.kind with
    | none => rfl
    | some kind => exact kind.verdict_unplaced t u
  rw [DataType.lower_eq, DataType.lower_eq]
  refine verdict_bind (TyVar.verdict_unplacedAll t u d.params) fun _ _ =>
    verdict_bind kind fun _ _ => verdict_last ?_
  exact verdict_mapM fun c => c.verdict_unplaced t u _ _

theorem TypeSynonym.verdict_unplaced (d : TypeSynonym) :
    verdict (d.lower t) = verdict (d.unplaced.lower u) := by
  rw [TypeSynonym.lower, TypeSynonym.lower]
  exact verdict_bind (TyVar.verdict_unplacedAll t u d.params) fun _ _ =>
    verdict_last (d.body.verdict_unplaced t u)

end Declarations

/-- Over any two tables, trees that differ in positions only are both converted, or both have a
fault of the same kind and description. -/
theorem verdict_eq_of_unplaced_eq (t u : Table) :
    (∀ e f : Expr, e.unplaced = f.unplaced → verdict (e.lower t) = verdict (f.lower u)) ∧
    (∀ p q : Pattern, p.unplaced = q.unplaced → verdict (p.lower t) = verdict (q.lower u)) ∧
    (∀ a b : Ty, a.unplaced = b.unplaced → verdict (a.lower t) = verdict (b.lower u)) ∧
    (∀ (b c : Binding) (sig tau : Option Ty), b.unplaced = c.unplaced →
      sig.map Ty.unplaced = tau.map Ty.unplaced →
        verdict (b.lower t sig) = verdict (c.lower u tau)) ∧
    (∀ r s : Rhs, r.unplaced = s.unplaced → verdict (r.lower t) = verdict (s.lower u)) ∧
    (∀ d e : DataType, d.unplaced = e.unplaced →
      verdict (d.lower (d.register t)) = verdict (e.lower (e.register u))) ∧
    ∀ d e : TypeSynonym, d.unplaced = e.unplaced → verdict (d.lower t) = verdict (e.lower u) := by
  -- each tree is compared with its unplaced form, over a table that both have in common
  refine ⟨fun e f same => ?_, fun p q same => ?_, fun a b same => ?_,
    fun b c sig tau same signed => ?_, fun r s same => ?_, fun d e same => ?_, fun d e same => ?_⟩
  · rw [e.verdict_unplaced t u, same, ← f.verdict_unplaced u u]
  · rw [p.verdict_unplaced t u, same, ← q.verdict_unplaced u u]
  · rw [a.verdict_unplaced t u, same, ← b.verdict_unplaced u u]
  · rw [b.verdict_unplaced t u sig, same, signed, ← c.verdict_unplaced u u tau]
  · rw [r.verdict_unplaced t u, same, ← s.verdict_unplaced u u]
  · rw [d.verdict_unplaced _ u, same, ← e.verdict_unplaced _ u]
  · rw [d.verdict_unplaced t u, same, ← e.verdict_unplaced u u]

theorem moved_trees_same_verdict :
    verdict ((Expr.app ⟨8, 1⟩ (.var ⟨8, 1⟩ "f") (.unsupported ⟨8, 3⟩ .negation)).lower .empty) =
      some (.unsupported, "negation") ∧
    verdict ((Pattern.con ⟨8, 1⟩ "Just" .between []).lower .empty) =
      some (.unsupported, "infix constructor patterns") ∧
    verdict ((Ty.list ⟨8, 1⟩ (.tuple ⟨8, 2⟩ .unboxed [])).lower .empty) =
      some (.unsupported, "unboxed tuples") ∧
    verdict ((Binding.mk ⟨8, 1⟩ "f" []).lower .empty (some (.wildcard ⟨7, 6⟩))) =
      some (.malformed, "binding without equations") ∧
    verdict ((Rhs.mk [.mk ⟨8, 1⟩ [.bool ⟨8, 3⟩ (.var ⟨8, 3⟩ "x")] (.var ⟨8, 7⟩ "y")] .none).lower
      .empty) = some (.malformed, "possibly incomplete guards") ∧
    verdict ((DataType.mk "D" [] none [⟨⟨8, 1⟩, "C", [], [], .record, []⟩]).lower
      ((DataType.mk "D" [] none [⟨⟨8, 1⟩, "C", [], [], .record, []⟩]).register .empty)) =
      some (.unsupported, "record syntax in data declarations") ∧
    verdict ((TypeSynonym.mk "S" [] (.var ⟨8, 1⟩ "Int")).lower .empty) = none := by
  obtain ⟨exprs, patterns, types, bindings, rights, datas, synonyms⟩ :=
    verdict_eq_of_unplaced_eq .empty .initial
  refine ⟨?_, ?_, ?_, ?_, ?_, ?_, ?_⟩
  · exact (exprs _ (.app {} (.var {} "f") (.unsupported {} .negation)) rfl).trans rfl
  · exact (patterns _ (.con {} "Just" .between []) rfl).trans rfl
  · exact (types _ (.list {} (.tuple {} .unboxed [])) rfl).trans rfl
  · exact (bindings _ (.mk {} "f" []) _ (some (.wildcard {})) rfl rfl).trans rfl
  · exact (rights _ (.mk [.mk {} [.bool {} (.var {} "x")] (.var {} "y")] .none) rfl).trans rfl
  · exact (datas _ ⟨"D", [], none, [⟨{}, "C", [], [], .record, []⟩]⟩ rfl).trans rfl
  · exact (synonyms _ ⟨"S", [], .var {} "Int"⟩ rfl).trans rfl

end Vernacular.Surface
