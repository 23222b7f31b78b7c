import Std.Data.TreeSet.Lemmas
import Vernacular.Proofs.Nodes

set_option autoImplicit false

namespace Vernacular

namespace Identifier

theorem mem_sorted {x : String} {names : List String} : x ∈ sorted names ↔ x ∈ names := by
  rw [sorted, Std.TreeSet.mem_toList, Std.TreeSet.mem_ofList, List.contains_iff_mem]

end Identifier

namespace Term

theorem mem_freeUnder {x : String} {bs : List Binder} {inner : List String}
    (h : x ∈ freeUnder bs inner) : x ∈ inner ∨ ∃ b ∈ bs, ∃ t ∈ b.type, x ∈ t.free := by
  induction bs with
  | nil => exact .inl h
  | cons b bs ih =>
    obtain ⟨y, ty, i⟩ := b
    simp only [freeUnder, List.mem_append, List.mem_filter] at h
    rcases h with h | ⟨h, -⟩
    · cases ty with
      | none => cases h
      | some t => exact .inr ⟨_, List.mem_cons_self .., t, rfl, h⟩
    · rcases ih h with h | ⟨b, hb, rest⟩
      · exact .inl h
      · exact .inr ⟨b, List.mem_cons_of_mem _ hb, rest⟩

theorem mem_free_forAll {x : String} {bs : List Binder} {t : Term}
    (h : x ∈ (forAll bs t).free) : x ∈ t.free ∨ ∃ b ∈ bs, ∃ u ∈ b.type, x ∈ u.free := by
  unfold forAll at h
  split at h
  · exact .inl h
  · exact mem_freeUnder h

theorem mem_free_foldl_app {x f : String} {ts : List Term} {t : Term}
    (h : x ∈ (ts.foldl (fun front u => .app (.var f) [front, u]) t).free) :
    x = f ∨ x ∈ t.free ∨ ∃ u ∈ ts, x ∈ u.free := by
  induction ts generalizing t with
  | nil => exact .inr (.inl h)
  | cons u ts ih =>
    rcases ih h with rfl | h | ⟨v, hv, h⟩
    · exact .inl rfl
    · simp only [free, freeAll, List.mem_append, List.mem_singleton, List.append_nil] at h
      rcases h with rfl | h | h
      · exact .inl rfl
      · exact .inr (.inl h)
      · exact .inr (.inr ⟨u, List.mem_cons_self .., h⟩)
    · exact .inr (.inr ⟨v, List.mem_cons_of_mem _ hv, h⟩)

end Term

namespace Surface

mutual

def Ty.quantifiedNames : Ty → List String
  | .app _ f a => f.quantifiedNames ++ a.quantifiedNames
  | .arrow _ a r => a.quantifiedNames ++ r.quantifiedNames
  | .paren _ t => t.quantifiedNames
  | .kinded _ t k => t.quantifiedNames ++ k.quantifiedNames
  | .list _ e => e.quantifiedNames
  | .tuple _ _ ts => Ty.quantifiedNamesAll ts
  | .quantified _ _ vs t => TyVar.names vs ++ t.quantifiedNames
  | .strict _ t => t.quantifiedNames
  | _ => []

def Ty.quantifiedNamesAll : List Ty → List String
  | [] => []
  | t :: ts => t.quantifiedNames ++ Ty.quantifiedNamesAll ts

def TyVar.names : List TyVar → List String
  | [] => []
  | .mk x none :: vs => x :: TyVar.names vs
  | .mk x (some k) :: vs => x :: k.quantifiedNames ++ TyVar.names vs

end

theorem natural_of_numeral {what : String} {value : Option Int} {n : Int}
    (h : numeral what value = .ok n) : 0 ≤ n := by
  unfold numeral at h
  split at h
  · cases h
  · split at h
    · cases h
    · cases h
      omega

theorem Literal.lower_cases {l : Literal} {t : Term} (h : l.lower = .ok t) :
    (∃ s, t = .str s) ∨ ∃ n : Int, 0 ≤ n ∧ t = .num (some n) := by
  cases l with
  | string text => exact .inl ⟨text, (Except.ok.inj h).symm⟩
  | int value =>
    obtain ⟨n, given, rfl⟩ := map_eq_ok.1 h
    exact .inr ⟨n, natural_of_numeral given, rfl⟩
  | integer value =>
    obtain ⟨n, given, rfl⟩ := map_eq_ok.1 h
    exact .inr ⟨n, natural_of_numeral given, rfl⟩
  | unsupported form => cases h
  | unknown => cases h

theorem OverLiteral.lower_cases {l : OverLiteral} {t : Term} (h : l.lower = .ok t) :
    (∃ s, t = .str s) ∨ ∃ n : Int, 0 ≤ n ∧ t = .num (some n) := by
  cases l with
  | integral value =>
    obtain ⟨n, given, rfl⟩ := map_eq_ok.1 h
    exact .inr ⟨n, natural_of_numeral given, rfl⟩
  | fractional => cases h
  | string text => exact .inl ⟨text, (Except.ok.inj h).symm⟩
  | unknown => cases h

theorem Literal.lowerPattern_cases {l : Literal} {p : Vernacular.Pattern}
    (h : l.lowerPattern = .ok p) :
    (∃ s, p = .str s) ∨ ∃ n : Int, 0 ≤ n ∧ p = .num (some n) := by
  cases l with
  | string text => exact .inl ⟨text, (Except.ok.inj h).symm⟩
  | int value =>
    obtain ⟨n, given, rfl⟩ := map_eq_ok.1 h
    exact .inr ⟨n, natural_of_numeral given, rfl⟩
  | integer value =>
    obtain ⟨n, given, rfl⟩ := map_eq_ok.1 h
    exact .inr ⟨n, natural_of_numeral given, rfl⟩
  | unsupported form => cases h
  | unknown => cases h

theorem OverLiteral.lowerPattern_cases {l : OverLiteral} {p : Vernacular.Pattern}
    (h : l.lowerPattern = .ok p) :
    (∃ s, p = .str s) ∨ ∃ n : Int, 0 ≤ n ∧ p = .num (some n) := by
  cases l with
  | integral value =>
    obtain ⟨n, given, rfl⟩ := map_eq_ok.1 h
    exact .inr ⟨n, natural_of_numeral given, rfl⟩
  | fractional => cases h
  | string text => exact .inl ⟨text, (Except.ok.inj h).symm⟩
  | unknown => cases h

section Parts

variable {table : Table} {uniform : Prop} {vars : String → Prop}

theorem made_literal {t : Term} (h : (∃ s, t = .str s) ∨ ∃ n : Int, 0 ≤ n ∧ t = .num (some n)) :
    t.Made table uniform vars ∧ t.free = [] := by
  rcases h with ⟨s, rfl⟩ | ⟨n, natural, rfl⟩
  · exact ⟨Term.every_leaf rfl .str, rfl⟩
  · exact ⟨Term.every_leaf rfl (.num natural), rfl⟩

theorem node_literal {p : Vernacular.Pattern}
    (h : (∃ s, p = .str s) ∨ ∃ n : Int, 0 ≤ n ∧ p = .num (some n)) : p.Node table := by
  rcases h with ⟨s, rfl⟩ | ⟨n, natural, rfl⟩
  · exact .str
  · exact .num natural

mutual

theorem Pattern.node_lower : ∀ (p : Pattern) {q : Vernacular.Pattern}, p.lower table = .ok q →
    q.Node table
  | .wild _, _, h => by
    cases h
    exact .wild
  | .var _ _, _, h => by
    cases h
    exact .var
  | .paren _ p, _, h => Pattern.node_lower p (locating_eq_ok.1 h)
  | .strict _ p, _, h => Pattern.node_lower p (locating_eq_ok.1 h)
  | .named _ _ p, _, h => by
    simp only [Pattern.lower, locating_eq_ok, bind_eq_ok, pure_eq_ok] at h
    obtain ⟨inner, hp, rfl⟩ := h
    exact .named (Pattern.node_lower p hp)
  | .con _ _ style ps, _, h => by
    cases style with
    | ordinary =>
      simp only [Pattern.lower, locating_eq_ok, bind_eq_ok, pure_eq_ok] at h
      obtain ⟨args, hps, rfl⟩ := h
      exact .con (Pattern.node_lowerAll ps hps).1
    | between => cases locating_eq_ok.1 h
    | record => cases locating_eq_ok.1 h
  | .literal _ l, _, h => node_literal (l.lowerPattern_cases (locating_eq_ok.1 h))
  | .overloaded _ negated l, _, h => by
    cases negated with
    | true => cases locating_eq_ok.1 h
    | false => exact node_literal (l.lowerPattern_cases (locating_eq_ok.1 h))
  | .unsupported _ _, _, h => by cases locating_eq_ok.1 h
  | .unknown _, _, h => by cases locating_eq_ok.1 h

theorem Pattern.node_lowerAll : ∀ (ps : List Pattern) {qs : List Vernacular.Pattern},
    Pattern.lowerAll table ps = .ok qs → (∀ q ∈ qs, q.Node table) ∧ qs.length = ps.length
  | [], _, h => by
    cases h
    exact ⟨List.forall_mem_nil _, rfl⟩
  | p :: ps, _, h => by
    simp only [Pattern.lowerAll, bind_eq_ok, pure_eq_ok] at h
    obtain ⟨q, hp, qs, hps, rfl⟩ := h
    obtain ⟨rest, length⟩ := Pattern.node_lowerAll ps hps
    exact ⟨List.forall_mem_cons.2 ⟨Pattern.node_lower p hp, rest⟩, congrArg (· + 1) length⟩

end

/-- What a type is converted to: a term of known nodes in which only targets of types are free. -/
structure MadeType (table : Table) (uniform : Prop) (vars : String → Prop) (t : Term) : Prop where
  made : t.Made table uniform vars
  named : ∀ x ∈ t.free, ∃ z, x = table.typeName z

/-- The binder of a type variable in `vars`. -/
structure MadeBinder (table : Table) (uniform : Prop) (vars : String → Prop) (b : Binder) :
    Prop where
  name : ∃ x, vars x ∧ b.name = table.typeName x
  kind : ∀ k ∈ b.type, MadeType table uniform vars k

theorem madeType_var (x : String) :
    MadeType table uniform vars (.var (table.typeName x)) where
  made := Term.made_var _
  named _ hy := ⟨x, List.mem_singleton.1 hy⟩

theorem MadeType.apply {f a : Term} (head : MadeType table uniform vars f)
    (arg : MadeType table uniform vars a) : MadeType table uniform vars (f.apply [a]) where
  made := head.made.apply (List.forall_mem_singleton.2 arg.made)
  named x hx := by
    rw [Term.mem_free_apply, Term.mem_freeAll] at hx
    rcases hx with hx | ⟨t, ht, hx⟩
    · exact head.named x hx
    · exact arg.named x (List.mem_singleton.1 ht ▸ hx)

theorem MadeType.tuple {ts : List Term} (parts : ∀ t ∈ ts, MadeType table uniform vars t) :
    MadeType table uniform vars (tupleTerm table ts) := by
  cases ts with
  | nil => exact madeType_var "()"
  | cons t ts =>
    obtain ⟨first, rest⟩ := List.forall_mem_cons.1 parts
    refine ⟨Term.made_foldl_app first.made fun u hu => (rest u hu).made, fun x hx => ?_⟩
    rcases Term.mem_free_foldl_app hx with rfl | hx | ⟨u, hu, hx⟩
    · exact ⟨_, rfl⟩
    · exact first.named x hx
    · exact (rest u hu).named x hx

theorem MadeType.forAll {bs : List Binder} {t : Term}
    (binders : ∀ b ∈ bs, MadeBinder table uniform vars b) (body : MadeType table uniform vars t) :
    MadeType table uniform vars (.forAll bs t) where
  made := by
    refine .forAll ?_ (fun b hb k hk => ((binders b hb).kind k hk).made) body.made
    rw [List.forall_mem_map]
    intro b hb
    obtain ⟨x, bound, name⟩ := (binders b hb).name
    exact ⟨x, name, .inl bound⟩
  named x hx := by
    rcases Term.mem_free_forAll hx with hx | ⟨b, hb, k, hk, hx⟩
    · exact body.named x hx
    · exact ((binders b hb).kind k hk).named x hx

/-- The variables that generalization binds look like variables, and so does their target. -/
theorem MadeType.generalize {t : Term} (body : MadeType table uniform vars t) :
    MadeType table uniform vars (Surface.generalize table t) where
  made := by
    refine .forAll ?_ ?_ body.made
    · intro y hy
      obtain ⟨b, hb, rfl⟩ := List.mem_map.1 hy
      obtain ⟨x, hx, rfl⟩ := List.mem_map.1 hb
      obtain ⟨free, bindable⟩ := List.mem_filter.1 hx
      obtain ⟨z, target⟩ := body.named x (Identifier.mem_sorted.1 free)
      exact ⟨z, target, .inr (Bool.and_eq_true_iff.1 bindable).2⟩
    · intro b hb
      obtain ⟨x, -, rfl⟩ := List.mem_map.1 hb
      exact nofun
  named x hx := by
    rcases Term.mem_free_forAll hx with hx | ⟨b, hb, k, hk, hx⟩
    · exact body.named x hx
    · obtain ⟨y, -, rfl⟩ := List.mem_map.1 hb
      cases hk

mutual

theorem Ty.made_lower : ∀ (ty : Ty) {t : Term}, (∀ x ∈ ty.quantifiedNames, vars x) →
    ty.lower table = .ok t → MadeType table uniform vars t
  | .var _ x, _, _, h => by
    cases h
    exact madeType_var x
  | .app _ f a, _, bound, h => by
    simp only [Ty.lower, locating_eq_ok, bind_eq_ok, pure_eq_ok] at h
    obtain ⟨head, hf, arg, ha, rfl⟩ := h
    obtain ⟨left, right⟩ := List.forall_mem_append.1 bound
    exact (Ty.made_lower f left hf).apply (Ty.made_lower a right ha)
  | .arrow _ a r, _, bound, h => by
    simp only [Ty.lower, locating_eq_ok, bind_eq_ok, pure_eq_ok] at h
    obtain ⟨dom, ha, cod, hr, rfl⟩ := h
    obtain ⟨left, right⟩ := List.forall_mem_append.1 bound
    have domain := Ty.made_lower a left ha
    have codomain := Ty.made_lower r right hr
    exact ⟨Term.every_arrow.2 ⟨.arrow, domain.made, codomain.made⟩,
      List.forall_mem_append.2 ⟨domain.named, codomain.named⟩⟩
  | .paren _ t, _, bound, h => by
    simp only [Ty.lower, locating_eq_ok, bind_eq_ok, pure_eq_ok] at h
    obtain ⟨inner, ht, rfl⟩ := h
    have part := Ty.made_lower t bound ht
    exact ⟨Term.every_parens.2 ⟨.parens, part.made⟩, part.named⟩
  | .kinded _ t k, _, bound, h => by
    simp only [Ty.lower, locating_eq_ok, bind_eq_ok, pure_eq_ok] at h
    obtain ⟨type, ht, kind, hk, rfl⟩ := h
    obtain ⟨left, right⟩ := List.forall_mem_append.1 bound
    have term := Ty.made_lower t left ht
    have sort := Ty.made_lower k right hk
    exact ⟨Term.every_ascribed.2 ⟨.ascribed, term.made, sort.made⟩,
      List.forall_mem_append.2 ⟨term.named, sort.named⟩⟩
  | .number _ n, _, _, h => by
    obtain ⟨made, free⟩ := made_literal (n.lower_cases (locating_eq_ok.1 h))
    exact ⟨made, by simp [free]⟩
  | .text _ s, _, _, h => by
    cases h
    exact ⟨Term.every_leaf rfl .str, List.forall_mem_nil _⟩
  | .wildcard _, _, _, h => by
    cases h
    exact ⟨Term.every_leaf rfl .hole, List.forall_mem_nil _⟩
  | .list _ e, _, bound, h => by
    simp only [Ty.lower, locating_eq_ok, bind_eq_ok, pure_eq_ok] at h
    obtain ⟨elem, he, rfl⟩ := h
    exact (madeType_var "[]").apply (Ty.made_lower e bound he)
  | .tuple _ sort ts, _, bound, h => by
    cases sort with
    | boxed =>
      simp only [Ty.lower, locating_eq_ok, bind_eq_ok, pure_eq_ok] at h
      obtain ⟨elems, hts, rfl⟩ := h
      exact .tuple (Ty.made_lowerAll ts bound hts)
    | unboxed => cases locating_eq_ok.1 h
    | constraint => cases locating_eq_ok.1 h
  | .quantified _ implicit vs t, _, bound, h => by
    obtain ⟨outer, inner⟩ := List.forall_mem_append.1 bound
    simp only [Ty.lower, locating_eq_ok, bind_eq_ok] at h
    obtain ⟨body, ht, h⟩ := h
    have part := Ty.made_lower t inner ht
    split at h
    · cases h
      exact part.generalize
    · simp only [bind_eq_ok, pure_eq_ok] at h
      obtain ⟨binders, hvs, rfl⟩ := h
      exact .forAll (TyVar.made_lowerAll vs outer hvs) part
  | .strict _ t, _, bound, h => Ty.made_lower t bound (locating_eq_ok.1 h)
  | .unsupported _ _, _, _, h => by cases locating_eq_ok.1 h
  | .unknown _, _, _, h => by cases locating_eq_ok.1 h

theorem Ty.made_lowerAll : ∀ (tys : List Ty) {ts : List Term},
    (∀ x ∈ Ty.quantifiedNamesAll tys, vars x) → Ty.lowerAll table tys = .ok ts →
      ∀ t ∈ ts, MadeType table uniform vars t
  | [], _, _, h => by
    cases h
    exact List.forall_mem_nil _
  | ty :: tys, _, bound, h => by
    simp only [Ty.lowerAll, bind_eq_ok, pure_eq_ok] at h
    obtain ⟨t, first, ts, rest, rfl⟩ := h
    obtain ⟨left, right⟩ := List.forall_mem_append.1 bound
    exact List.forall_mem_cons.2 ⟨Ty.made_lower ty left first, Ty.made_lowerAll tys right rest⟩

theorem TyVar.made_lowerAll : ∀ (vs : List TyVar) {bs : List Binder},
    (∀ x ∈ TyVar.names vs, vars x) → TyVar.lowerAll table vs = .ok bs →
      ∀ b ∈ bs, MadeBinder table uniform vars b
  | [], _, _, h => by
    cases h
    exact List.forall_mem_nil _
  | .mk x none :: vs, _, bound, h => by
    simp only [TyVar.lowerAll, bind_eq_ok, pure_eq_ok] at h
    obtain ⟨bs, rest, rfl⟩ := h
    obtain ⟨name, others⟩ := List.forall_mem_cons.1 bound
    exact List.forall_mem_cons.2 ⟨⟨⟨x, name, rfl⟩, nofun⟩, TyVar.made_lowerAll vs others rest⟩
  | .mk x (some k) :: vs, _, bound, h => by
    simp only [TyVar.lowerAll, bind_eq_ok, pure_eq_ok] at h
    obtain ⟨kind, first, bs, rest, rfl⟩ := h
    obtain ⟨front, others⟩ := List.forall_mem_append.1 bound
    obtain ⟨name, inner⟩ := List.forall_mem_cons.1 front
    refine List.forall_mem_cons.2 ⟨⟨⟨x, name, rfl⟩, ?_⟩, TyVar.made_lowerAll vs others rest⟩
    rintro u ⟨⟩
    exact Ty.made_lower k inner first

end

end Parts

end Surface

end Vernacular
