import Vernacular.Proofs.Conversion

set_option autoImplicit false

namespace Vernacular

mutual

def Pattern.isProper : Pattern → Bool
  | .missing => false
  | .named p _ => p.isProper
  | .con _ ps => Pattern.areProper ps
  | .num n => n.any (0 ≤ ·)
  | .wild | .var _ | .str _ => true

def Pattern.areProper : List Pattern → Bool
  | [] => true
  | p :: ps => p.isProper && Pattern.areProper ps

end

/-- Whether a single node is well formed. Those inside it are not looked at. -/
def Term.isProper : Term → Bool
  | .missing | .foreign _ => false
  | .app f args => !f.isApp && !args.isEmpty
  | .lam bs _ | .fix _ bs _ _ | .pi bs _ => !bs.isEmpty
  | .num n => n.any (0 ≤ ·)
  | .caseOf ts as =>
    !ts.isEmpty &&
      as.all fun a => a.patterns.length = ts.length && Pattern.areProper a.patterns
  | .var _ | .str _ | .parens _ | .arrow _ _ | .ite _ _ _ | .letIn _ _ _ _ _ | .ascribed _ _
  | .hole | .sort _ => true

/-- The terms of a definition: the types of its binders, its type and its body, with all terms
inside them. -/
def Definition.subterms (d : Definition) : List Term :=
  Term.subtermsBinders d.binders ++ Term.subtermsType d.type ++ d.body.subterms

mutual

theorem Pattern.Node.isProper {table : Table} : ∀ {p : Pattern}, p.Node table → p.isProper
  | .wild, _ => rfl
  | .var _, _ => rfl
  | .named _ _, h => by
    cases h with
    | named inner => exact inner.isProper
  | .con _ _, h => by
    cases h with
    | con args => exact Pattern.Node.areProper args
  | .num _, h => by
    cases h with
    | num natural => exact decide_eq_true natural
  | .str _, _ => rfl

theorem Pattern.Node.areProper {table : Table} :
    ∀ {ps : List Pattern}, (∀ p ∈ ps, p.Node table) → Pattern.areProper ps
  | [], _ => rfl
  | _ :: _, h => by
    obtain ⟨first, rest⟩ := List.forall_mem_cons.1 h
    exact Bool.and_eq_true_iff.2 ⟨first.isProper, Pattern.Node.areProper rest⟩

end

theorem Term.Node.isProper {table : Table} {vars : String → Prop} {t : Term}
    (h : t.Node table True vars) : t.isProper := by
  cases h with
  | num natural => exact decide_eq_true natural
  | app head nonempty => simp [Term.isProper, head, nonempty]
  | lam nonempty _ => simpa [Term.isProper] using nonempty
  | fix nonempty _ => simpa [Term.isProper] using nonempty
  | pi nonempty _ => simpa [Term.isProper] using nonempty
  | caseOf nonempty patterns fits =>
    simp only [Term.isProper, Bool.and_eq_true, Bool.not_eq_true', List.isEmpty_eq_false_iff,
      List.all_eq_true, decide_eq_true_eq]
    refine ⟨nonempty, fun a ha => ⟨?_, ?_⟩⟩
    · exact fits trivial _ (List.mem_map_of_mem ha)
    · exact Pattern.Node.areProper (patterns _ (List.mem_map_of_mem ha))
  | var | str | hole | parens | arrow | ascribed | ite | letIn => rfl

theorem Term.Made.isProper {table : Table} {vars : String → Prop} {t : Term}
    (h : t.Made table True vars) : ∀ s ∈ t.subterms, s.isProper :=
  fun s hs => (h s hs).isProper

namespace Surface

/-- All equations of one lambda or binding in an expression have the same number of patterns. -/
def Expr.Uniform (e : Expr) : Prop :=
  ∀ qs, .function qs ∈ e.fragments → SameArity qs

def Binding.Uniform (b : Binding) : Prop :=
  ∀ qs, .function qs ∈ b.fragments → SameArity qs

/-- Uniform equations are all that well-formedness asks for: types may bind any variables. -/
theorem admitted_of_uniform {ps : List Fragment} (h : ∀ qs, .function qs ∈ ps → SameArity qs) :
    ∀ p ∈ ps, p.Admitted True fun _ => True := by
  intro p hp
  cases p with
  | function qs => exact fun _ => h qs hp
  | type ty => exact fun _ _ => trivial

/-- Over any table, what an expression or a binding is converted to is well formed throughout. -/
theorem lower_isProper (table : Table) :
    (∀ (e : Expr) (t : Term), e.Uniform → e.lower table = .ok t → ∀ s ∈ t.subterms, s.isProper) ∧
      ∀ (signature : Option Ty) (b : Binding) (d : Definition), b.Uniform →
        b.lower table signature = .ok d → ∀ s ∈ d.subterms, s.isProper := by
  constructor
  · intro e t uniform converted s hs
    exact (Expr.made_lower e (admitted_of_uniform uniform) converted).isProper s hs
  · intro signature b d uniform converted
    have made : d.Made table True fun _ => True :=
      Binding.made_lower b (fun _ _ _ _ => trivial) (admitted_of_uniform uniform) converted
    rw [Definition.subterms, List.forall_mem_append, List.forall_mem_append,
      Term.forall_subtermsBinders, Term.forall_subtermsType]
    refine ⟨⟨?_, ?_⟩, made.body.isProper⟩
    · exact fun b hb u hu => (made.kinds b hb u hu).isProper
    · exact fun u hu => (made.type u hu).isProper

def guardedCall : Expr :=
  .letIn {}
    (.mk {} false
      [.mk {} "f"
        [.mk {} [.con {} "Just" .ordinary [.var {} "n"], .literal {} (.int (some 0))]
            (.mk
              [.mk {} [.bool {} (.var {} "n"), .bool {} (.var {} "otherwise")] (.var {} "n"),
                .mk {} [.bool {} (.var {} "otherwise")]
                  (.app {} (.app {} (.var {} "f") (.var {} "Nothing"))
                    (.literal {} (.int (some 1))))]
              .none),
          .mk {} [.wild {}, .var {} "m"] (.mk [.mk {} [] (.var {} "False")] .none)]]
      [("f", .quantified {} true []
        (.arrow {} (.app {} (.var {} "Maybe") (.var {} "a"))
          (.arrow {} (.var {} "Int") (.var {} "a"))))])
    (.lambda {}
      [.mk {} [.var {} "x"] (.mk [.mk {} [] (.app {} (.var {} "f") (.var {} "x"))] .none)])

theorem guardedCall_isProper :
    guardedCall.Uniform ∧
      ∃ t, guardedCall.lower .initial = .ok t ∧ t.subterms.length = 27 ∧
        ∀ s ∈ t.subterms, s.isProper := by
  have uniform : guardedCall.Uniform := by
    intro qs h
    simp [guardedCall, Expr.fragments, LocalBinds.fragments, Binding.fragmentsAll,
      Binding.fragments, Equation.fragmentsAll, Rhs.fragments, Alternative.fragmentsAll,
      Guard.fragmentsAll, LocalBinds.none] at h
    rcases h with rfl | rfl
    · simp [SameArity, Equation.patterns]
    · simp [SameArity]
  exact ⟨uniform, _, rfl, by rfl, (lower_isProper .initial).1 guardedCall _ uniform rfl⟩

end Surface

end Vernacular
