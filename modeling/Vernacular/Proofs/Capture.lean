import Vernacular.Proofs.Exposure
import Vernacular.Proofs.FreeNames
import Vernacular.Proofs.Outcome
import Vernacular.Proofs.Targets

/-!
Capture in converted functions. An identifier stays free where no binder of the same target name has
it in its scope. A binder of another identifier with the same target name captures it.
-/

set_option autoImplicit false

namespace Vernacular.Surface

theorem Literal.names_of_lowerPattern {l : Literal} {q : Vernacular.Pattern}
    (h : l.lowerPattern = .ok q) : q.bound = [] ∧ q.constructors = [] := by
  cases l with
  | string text =>
    cases h
    exact ⟨rfl, rfl⟩
  | int value =>
    obtain ⟨n, -, rfl⟩ := map_eq_ok.1 h
    exact ⟨rfl, rfl⟩
  | integer value =>
    obtain ⟨n, -, rfl⟩ := map_eq_ok.1 h
    exact ⟨rfl, rfl⟩
  | unsupported form => cases h
  | unknown => cases h

theorem OverLiteral.names_of_lowerPattern {l : OverLiteral} {q : Vernacular.Pattern}
    (h : l.lowerPattern = .ok q) : q.bound = [] ∧ q.constructors = [] := by
  cases l with
  | integral value =>
    obtain ⟨n, -, rfl⟩ := map_eq_ok.1 h
    exact ⟨rfl, rfl⟩
  | fractional => cases h
  | string text =>
    cases h
    exact ⟨rfl, rfl⟩
  | unknown => cases h

mutual

theorem Pattern.names_of_lower (table : Table) :
    ∀ (p : Pattern) {q : Vernacular.Pattern}, p.lower table = .ok q →
      q.bound = p.bound.map table.valueName ∧ q.constructors = p.constructors.map table.valueName
  | .wild _, _, h => by
    cases h
    exact ⟨rfl, rfl⟩
  | .var _ _, _, h => by
    cases h
    exact ⟨rfl, rfl⟩
  | .paren _ p, _, h => Pattern.names_of_lower table p (locating_eq_ok.1 h)
  | .strict _ p, _, h => Pattern.names_of_lower table p (locating_eq_ok.1 h)
  | .named _ x p, _, h => by
    simp only [Pattern.lower, locating_eq_ok, bind_eq_ok, pure_eq_ok] at h
    obtain ⟨inner, hp, rfl⟩ := h
    obtain ⟨bound, constructors⟩ := Pattern.names_of_lower table p hp
    simp [Pattern.bound, Pattern.constructors, Vernacular.Pattern.bound,
      Vernacular.Pattern.constructors, bound, constructors]
  | .con _ c style ps, _, h => by
    cases style with
    | ordinary =>
      simp only [Pattern.lower, locating_eq_ok, bind_eq_ok, pure_eq_ok] at h
      obtain ⟨args, hps, rfl⟩ := h
      obtain ⟨bound, constructors⟩ := Pattern.names_of_lowerAll table ps hps
      simp [Pattern.bound, Pattern.constructors, Vernacular.Pattern.bound,
        Vernacular.Pattern.constructors, bound, constructors]
    | between => cases locating_eq_ok.1 h
    | record => cases locating_eq_ok.1 h
  | .literal _ l, _, h => Literal.names_of_lowerPattern (locating_eq_ok.1 h)
  | .overloaded _ negated l, _, h => by
    cases negated with
    | true => cases locating_eq_ok.1 h
    | false => exact OverLiteral.names_of_lowerPattern (locating_eq_ok.1 h)
  | .unsupported _ _, _, h => by cases locating_eq_ok.1 h
  | .unknown _, _, h => by cases locating_eq_ok.1 h

theorem Pattern.names_of_lowerAll (table : Table) :
    ∀ (ps : List Pattern) {qs : List Vernacular.Pattern}, Pattern.lowerAll table ps = .ok qs →
      Vernacular.Pattern.boundAll qs = (Pattern.boundAll ps).map table.valueName ∧
        Vernacular.Pattern.constructorsAll qs = (Pattern.constructorsAll ps).map table.valueName
  | [], _, h => by
    cases h
    exact ⟨rfl, rfl⟩
  | p :: ps, _, h => by
    simp only [Pattern.lowerAll, bind_eq_ok, pure_eq_ok] at h
    obtain ⟨q, hp, qs, hps, rfl⟩ := h
    obtain ⟨bound, constructors⟩ := Pattern.names_of_lower table p hp
    obtain ⟨boundRest, constructorsRest⟩ := Pattern.names_of_lowerAll table ps hps
    simp [Pattern.boundAll, Pattern.constructorsAll, Vernacular.Pattern.boundAll,
      Vernacular.Pattern.constructorsAll, bound, constructors, boundRest, constructorsRest]

end

theorem mem_free_foldl_and {x : String} {ds : List Term} {front : Term}
    (h : x ∈ front.free ∨ ∃ d ∈ ds, x ∈ d.free) :
    x ∈ (ds.foldl (fun front d => .app (.var "andb") [front, d]) front).free := by
  induction ds generalizing front with
  | nil => simpa using h
  | cons d ds ih =>
    apply ih
    rcases h with h | ⟨e, he, hx⟩
    · exact .inl (by simp [Term.free, Term.freeAll, h])
    · rcases List.mem_cons.1 he with rfl | he
      · exact .inl (by simp [Term.free, Term.freeAll, hx])
      · exact .inr ⟨e, he, hx⟩

theorem mem_free_conjunction {x : String} {c : Term} {cs : List Term} (hc : c ∈ cs)
    (hx : x ∈ c.free) : x ∈ (conjunction cs).free := by
  cases cs with
  | nil => simp at hc
  | cons front cs =>
    apply mem_free_foldl_and
    rcases List.mem_cons.1 hc with rfl | hc
    · exact .inl hx
    · exact .inr ⟨c, hc, hx⟩

theorem LocalBinds.names_of_lower {table : Table} {binds : LocalBinds} {ds : List Definition}
    (h : binds.lower table = .ok ds) :
    ds.map Definition.name = binds.names.map table.valueName := by
  obtain ⟨pos, implicitParams, bs, signatures⟩ := binds
  exact Binding.names_of_lowered (LocalBinds.lower_parts h)

section Exposed

variable {table : Table} {hides : String → Bool} {y : String}

/-- Every binder with the target name of `y` hides it. -/
def HidesTarget (table : Table) (hides : String → Bool) (y : String) : Prop :=
  ∀ z, table.valueName z = table.valueName y → hides z

theorem HidesTarget.ne (cover : HidesTarget table hides y) {z : String} (shown : hides z = false) :
    table.valueName y ≠ table.valueName z := by
  intro same
  rw [cover z same.symm] at shown
  cases shown

theorem HidesTarget.valueName_not_mem (cover : HidesTarget table hides y) {xs : List String}
    (shown : xs.any hides = false) : table.valueName y ∉ xs.map table.valueName := by
  rw [List.mem_map]
  rintro ⟨z, hz, same⟩
  have hidden := List.any_eq_false.1 shown z hz
  exact hidden (cover z same)

/-- A name that a group does not hide is free in its nest if it is so in a value or the body. -/
theorem free_nest_of_exposed (cover : HidesTarget table hides y)
    {binds : LocalBinds} {ds : List Definition} {body : Term} (h : binds.lower table = .ok ds)
    (shown : binds.names.any hides = false)
    (inside : (∃ d ∈ ds, table.valueName y ∈ d.free) ∨ table.valueName y ∈ body.free) :
    table.valueName y ∈ (ds.foldr Definition.letIn body).free := by
  have outside : table.valueName y ∉ ds.map Definition.name := by
    rw [LocalBinds.names_of_lower h]
    exact cover.valueName_not_mem shown
  exact (Definition.mem_free_nest outside).2 inside

mutual

theorem Expr.free_of_exposed (cover : HidesTarget table hides y) :
    ∀ (e : Expr) {t : Term}, e.unsigned → e.lower table = .ok t → e.exposes hides y →
      table.valueName y ∈ t.free
  | .var _ x, _, _, h, shown => by
    cases h
    rw [Expr.exposes, decide_eq_true_eq] at shown
    rw [shown]
    exact List.mem_singleton_self _
  | .app _ f a, _, signed, h, shown => by
    simp only [Expr.lower, locating_eq_ok, bind_eq_ok, pure_eq_ok] at h
    obtain ⟨head, hf, arg, ha, rfl⟩ := h
    simp only [Expr.unsigned, Bool.and_eq_true] at signed
    rw [Term.mem_free_apply, Term.mem_freeAll]
    rcases Bool.or_eq_true_iff.1 shown with shown | shown
    · exact .inl (Expr.free_of_exposed cover f signed.1 hf shown)
    · exact .inr ⟨arg, List.mem_singleton_self _, Expr.free_of_exposed cover a signed.2 ha shown⟩
  | .paren _ e, _, signed, h, shown => by
    simp only [Expr.lower, locating_eq_ok, bind_eq_ok, pure_eq_ok] at h
    obtain ⟨inner, he, rfl⟩ := h
    rw [Term.free]
    exact Expr.free_of_exposed cover e signed he shown
  | .ite _ rebindable c t e, _, signed, h, shown => by
    cases rebindable with
    | true => cases locating_eq_ok.1 h
    | false =>
      simp only [Expr.lower, locating_eq_ok, Bool.false_eq_true, if_false, bind_eq_ok,
        pure_eq_ok] at h
      obtain ⟨cond, hc, yes, ht, no, he, rfl⟩ := h
      simp only [Expr.unsigned, Bool.and_eq_true] at signed
      simp only [Expr.exposes, Bool.or_eq_true] at shown
      simp only [Term.free, List.mem_append]
      rcases shown with (shown | shown) | shown
      · exact .inl (.inl (Expr.free_of_exposed cover c signed.1.1 hc shown))
      · exact .inl (.inr (Expr.free_of_exposed cover t signed.1.2 ht shown))
      · exact .inr (Expr.free_of_exposed cover e signed.2 he shown)
  | .caseOf _ e alts, _, signed, h, shown => by
    simp only [Expr.lower, locating_eq_ok, bind_eq_ok, pure_eq_ok] at h
    obtain ⟨scrutinee, he, arms, converted, rfl⟩ := h
    simp only [Expr.unsigned, Bool.and_eq_true] at signed
    simp only [Term.free, List.mem_append, Term.mem_freeAll]
    rcases Bool.or_eq_true_iff.1 shown with shown | shown
    · have inside := Expr.free_of_exposed cover e signed.1 he shown
      exact .inl ⟨scrutinee, List.mem_singleton_self _, inside⟩
    · exact .inr (Equation.free_of_exposed cover alts signed.2
        (Equation.lowersTo_of_lowerAlternatives converted) shown)
  | .letIn _ binds e, _, signed, h, shown => by
    simp only [Expr.lower, locating_eq_ok, bind_eq_ok, pure_eq_ok] at h
    obtain ⟨body, he, ds, converted, rfl⟩ := h
    simp only [Expr.unsigned, Bool.and_eq_true] at signed
    simp only [Expr.exposes, Bool.and_eq_true, Bool.not_eq_true', Bool.or_eq_true] at shown
    apply free_nest_of_exposed cover converted shown.1
    rcases shown.2 with inside | inside
    · exact .inl (LocalBinds.free_of_exposed cover binds signed.1 converted shown.1 inside)
    · exact .inr (Expr.free_of_exposed cover e signed.2 he inside)
  | .ascribed _ e sig, _, signed, h, shown => by
    simp only [Expr.lower, locating_eq_ok, bind_eq_ok, pure_eq_ok] at h
    obtain ⟨inner, he, type, -, rfl⟩ := h
    exact List.mem_append_left _ (Expr.free_of_exposed cover e signed he shown)
  | .lambda _ qs, _, signed, h, shown => by
    simp only [Expr.lower, locating_eq_ok, bind_eq_ok, pure_eq_ok] at h
    obtain ⟨_, -, arms, converted, rfl⟩ := h
    exact FunctionLiteral.mem_free_ofArms.2 (Equation.free_of_exposed cover qs signed
      (Equation.lowersTo_of_lowerAll converted) shown)
  | .lambdaCase _ qs, _, signed, h, shown => by
    simp only [Expr.lower, locating_eq_ok, bind_eq_ok, pure_eq_ok] at h
    obtain ⟨_, -, arms, converted, rfl⟩ := h
    exact FunctionLiteral.mem_free_ofArms.2 (Equation.free_of_exposed cover qs signed
      (Equation.lowersTo_of_lowerAll converted) shown)
  | .tick _ _ e, _, signed, h, shown =>
    Expr.free_of_exposed cover e signed (locating_eq_ok.1 h) shown

theorem Equation.free_of_exposed (cover : HidesTarget table hides y) :
    ∀ (qs : List Equation) {arms : List Arm}, Equation.unsignedAll qs →
      List.Forall₂ (Equation.LowersTo table) qs arms → Equation.exposesAny hides y qs →
        table.valueName y ∈ Term.freeArms arms
  | .mk pos ps rhs :: qs, _, signed, h, shown => by
    cases h with
    | @cons _ arm _ arms first rest =>
      obtain ⟨patterns, body⟩ := arm
      obtain ⟨hps, hrhs⟩ := first
      obtain ⟨bound, constructors⟩ := Pattern.names_of_lowerAll table ps hps
      simp only [Equation.unsignedAll, Bool.and_eq_true] at signed
      simp only [Equation.exposesAny, Bool.or_eq_true, Bool.and_eq_true, Bool.not_eq_true'] at shown
      simp only [Term.freeArms, List.mem_append]
      rcases shown with (shown | shown) | shown
      · rw [constructors]
        exact .inl (.inl (List.mem_map_of_mem (List.contains_iff_mem.1 shown)))
      · -- the variables of the arm are the target names of those of the equation
        have outside : table.valueName y ∉ Vernacular.Pattern.boundAll patterns := by
          rw [bound]
          exact cover.valueName_not_mem shown.1
        have inside := Rhs.free_of_exposed cover rhs signed.1 hrhs shown.2
        exact .inl (.inr (List.mem_filter.2 ⟨inside, decide_eq_true outside⟩))
      · exact .inr (Equation.free_of_exposed cover qs signed.2 rest shown)

theorem Rhs.free_of_exposed (cover : HidesTarget table hides y) :
    ∀ (rhs : Rhs) {t : Term}, rhs.unsigned → rhs.lower table = .ok t → rhs.exposes hides y →
      table.valueName y ∈ t.free
  | .mk alts binds, _, signed, h, shown => by
    simp only [Rhs.lower, bind_eq_ok, pure_eq_ok] at h
    obtain ⟨_, -, body, chain, ds, converted, rfl⟩ := h
    simp only [Rhs.unsigned, Bool.and_eq_true] at signed
    simp only [Rhs.exposes, Bool.and_eq_true, Bool.not_eq_true', Bool.or_eq_true] at shown
    apply free_nest_of_exposed cover converted shown.1
    rcases shown.2 with inside | inside
    · exact .inl (LocalBinds.free_of_exposed cover binds signed.1 converted shown.1 inside)
    · exact .inr (Alternative.free_of_exposed cover alts signed.2 chain inside)

theorem Alternative.free_of_exposed (cover : HidesTarget table hides y) :
    ∀ (alts : List Alternative) {t : Term}, Alternative.unsignedAll alts →
      Alternative.lowerChain table alts = .ok t → Alternative.exposesAny hides y alts →
        table.valueName y ∈ t.free
  | [.mk pos guards e], _, signed, h, shown => by
    simp only [Alternative.unsignedAll, Bool.and_eq_true, and_true] at signed
    simp only [Alternative.exposesAny, List.isEmpty_nil, Bool.not_true, Bool.false_and,
      Bool.false_or, Bool.or_false] at shown
    exact Expr.free_of_exposed cover e signed.2 h shown
  | .mk pos guards e :: b :: alts, _, signed, h, shown => by
    rw [Alternative.lowerChain, if_neg (by simp)] at h
    simp only [bind_eq_ok, pure_eq_ok] at h
    obtain ⟨conditions, hg, body, he, others, rest, rfl⟩ := h
    rw [Alternative.unsignedAll] at signed
    simp only [Bool.and_eq_true] at signed
    rw [Alternative.exposesAny] at shown
    simp only [List.isEmpty_cons, Bool.not_false, Bool.true_and, Bool.or_eq_true] at shown
    simp only [Term.free, List.mem_append]
    rcases shown with (shown | shown) | shown
    · obtain ⟨c, hc, inside⟩ := Guard.free_of_exposed cover guards signed.1.1 hg shown
      exact .inl (.inl (mem_free_conjunction hc inside))
    · exact .inl (.inr (Expr.free_of_exposed cover e signed.1.2 he shown))
    · exact .inr (Alternative.free_of_exposed cover (b :: alts) signed.2 rest shown)

theorem Guard.free_of_exposed (cover : HidesTarget table hides y) :
    ∀ (guards : List Guard) {cs : List Term}, Guard.unsignedAll guards →
      Guard.lowerAll table guards = .ok cs → Guard.exposesAny hides y guards →
        ∃ c ∈ cs, table.valueName y ∈ c.free
  | .bool pos e :: guards, _, signed, h, shown => by
    simp only [Guard.lowerAll, Guard.lower, bind_eq_ok, pure_eq_ok] at h
    obtain ⟨c, first, cs, rest, rfl⟩ := h
    simp only [Guard.unsignedAll, Bool.and_eq_true] at signed
    simp only [Guard.exposesAny, Bool.or_eq_true, Bool.and_eq_true, Bool.not_eq_true'] at shown
    rcases shown with ⟨condition, shown⟩ | shown
    · rw [if_neg (Bool.not_eq_true _ ▸ condition)] at first
      exact ⟨c, List.mem_cons_self .., Expr.free_of_exposed cover e signed.1 first shown⟩
    · obtain ⟨d, hd, inside⟩ := Guard.free_of_exposed cover guards signed.2 rest shown
      exact ⟨d, List.mem_cons_of_mem _ hd, inside⟩
  | .unsupported pos form :: guards, _, _, h, _ => by
    simp only [Guard.lowerAll, Guard.lower, bind_eq_ok, locating_eq_ok] at h
    obtain ⟨_, ⟨⟩, _⟩ := h
  | .unknown pos :: guards, _, _, h, _ => by
    simp only [Guard.lowerAll, Guard.lower, bind_eq_ok, locating_eq_ok] at h
    obtain ⟨_, ⟨⟩, _⟩ := h

theorem LocalBinds.free_of_exposed (cover : HidesTarget table hides y) :
    ∀ (binds : LocalBinds) {ds : List Definition}, binds.unsigned → binds.lower table = .ok ds →
      binds.names.any hides = false → binds.exposes hides y →
        ∃ d ∈ ds, table.valueName y ∈ d.free
  | .mk pos implicitParams bs signatures, _, signed, h, named, shown => by
    simp only [LocalBinds.unsigned, Bool.and_eq_true, List.isEmpty_iff] at signed
    obtain ⟨rfl, signed⟩ := signed
    exact Binding.free_of_exposed cover bs signed (LocalBinds.lower_parts h) named shown

theorem Binding.free_of_exposed (cover : HidesTarget table hides y) :
    ∀ (bs : List Binding) {ds : List Definition}, Binding.unsignedAll bs →
      List.Forall₂ (fun b d => b.lower table none = .ok d) bs ds →
        (bs.map Binding.name).any hides = false → Binding.exposesAny hides y bs →
          ∃ d ∈ ds, table.valueName y ∈ d.free
  | .mk pos x qs :: bs, _, signed, h, named, shown => by
    cases h with
    | @cons _ d _ ds first rest =>
      obtain ⟨-, signature, arms, each, body⟩ := Binding.lower_parts first
      simp only [Binding.unsignedAll, Bool.and_eq_true] at signed
      simp only [List.map_cons, List.any_cons, Bool.or_eq_false_iff] at named
      rcases Bool.or_eq_true_iff.1 shown with shown | shown
      · obtain ⟨unbound, untyped⟩ := Prod.mk.inj (Except.ok.inj signature)
        have inside := Equation.free_of_exposed cover qs signed.1 each shown
        refine ⟨d, List.mem_cons_self .., ?_⟩
        rw [Definition.free, ← unbound, ← untyped, Term.freeUnder, Term.freeType, List.nil_append]
        rcases body with rfl | ⟨-, body⟩
        · simpa [Term.freeArms, Vernacular.Pattern.constructorsAll,
            Vernacular.Pattern.boundAll] using inside
        · -- a fixpoint binds its own name, which is one of the group's
          rw [body]
          exact FunctionLiteral.mem_free_recursive.2
            ⟨FunctionLiteral.mem_free_ofArms.2 inside, cover.ne named.1⟩
      · obtain ⟨e, he, inside⟩ := Binding.free_of_exposed cover bs signed.2 rest named.2 shown
        exact ⟨e, List.mem_cons_of_mem _ he, inside⟩

end

/-- In every converted function, `y` is free if it is exposed past the binders that hide it. -/
def KeepsFree (table : Table) (hides : String → Bool) (y : String) : Prop :=
  ∀ qs arms, Equation.unsignedAll qs → Equation.lowerAll table qs = .ok arms →
    Equation.exposesAny hides y qs →
      table.valueName y ∈ (FunctionLiteral.ofArms arms).term.free

theorem HidesTarget.keepsFree (cover : HidesTarget table hides y) : KeepsFree table hides y := by
  intro qs arms signed converted shown
  have each := Equation.lowersTo_of_lowerAll converted
  exact FunctionLiteral.mem_free_ofArms.2 (Equation.free_of_exposed cover qs signed each shown)

end Exposed

/-- The function that gives `y` for every argument, which it calls `z`. -/
def constantly (z y : String) : List Equation :=
  [.mk {} [.var {} z] (.mk [.mk {} [] (.var {} y)] .none)]

/-- An argument captures another identifier with the same target name. -/
theorem not_keepsFree_of_same_target {table : Table} {y z : String} (other : z ≠ y)
    (same : table.valueName z = table.valueName y) : ¬ KeepsFree table (· = y) y := by
  intro keeps
  have converted : Equation.lowerAll table (constantly z y) =
      .ok [.mk [.var (table.valueName z)] (.var (table.valueName y))] := rfl
  have shown : Equation.exposesAny (· = y) y (constantly z y) := by
    simp [constantly, Equation.exposesAny, Pattern.constructorsAll, Pattern.constructors,
      Pattern.boundAll, Pattern.bound, Rhs.exposes, LocalBinds.none, LocalBinds.names,
      Alternative.exposesAny, Expr.exposes, other]
  have free := FunctionLiteral.mem_free_ofArms.1 (keeps _ _ rfl converted shown)
  simp [Term.freeArms, Term.free, Vernacular.Pattern.constructorsAll,
    Vernacular.Pattern.constructors, Vernacular.Pattern.boundAll, Vernacular.Pattern.bound,
    same] at free

/-- Over the built-in table, an identifier is free where no binder of its target name has it in its
scope. That no binder of its own name does so is enough for all but the built-in names. -/
theorem keepsFree_iff_unshared (y : String) :
    KeepsFree .initial (fun z => Table.initial.valueName z = Table.initial.valueName y) y ∧
      (KeepsFree .initial (· = y) y ↔ y ∉ Table.sharedNames) := by
  have cover : HidesTarget .initial
      (fun z => Table.initial.valueName z = Table.initial.valueName y) y :=
    fun _ same => decide_eq_true same
  refine ⟨cover.keepsFree, ?_⟩
  rw [← Table.exists_same_target_iff]
  constructor
  · rintro keeps ⟨z, other, same⟩
    exact not_keepsFree_of_same_target other same keeps
  · intro unshared
    have alone : HidesTarget .initial (· = y) y := by
      intro z same
      by_contra other
      exact unshared ⟨z, by simpa using other, same⟩
    exact alone.keepsFree

/-- A function with one use of `True` under an argument `true` and one beside it. -/
def sometimesCaptured : List Equation :=
  [.mk {} [.con {} "Just" .ordinary [.var {} "true"]] (.mk [.mk {} [] (.var {} "True")] .none),
    .mk {} [.con {} "Nothing" .ordinary []]
      (.mk [.mk {} [] (.app {} (.var {} "g") (.literal {} (.int (some 0))))]
        (.mk {} false [.mk {} "g" (constantly "n" "True")] []))]

theorem sometimesCaptured_keeps_true :
    ∃ arms, Equation.lowerAll .initial sometimesCaptured = .ok arms ∧
      "true" ∈ (FunctionLiteral.ofArms arms).term.free := by
  have keeps := (keepsFree_iff_unshared "True").1 sometimesCaptured
  exact ⟨_, rfl, keeps _ (by decide) rfl (by decide)⟩

/-- An argument called `true` captures `True`. -/
theorem constantly_true_captured :
    Equation.unsignedAll (constantly "true" "True") ∧
      Equation.exposesAny (· = "True") "True" (constantly "true" "True") ∧
        ∃ arms, Equation.lowerAll .initial (constantly "true" "True") = .ok arms ∧
          Table.initial.valueName "True" ∉ (FunctionLiteral.ofArms arms).term.free :=
  ⟨by decide, by decide, _, rfl, by decide⟩

end Vernacular.Surface
