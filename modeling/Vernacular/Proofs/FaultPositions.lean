import Mathlib.Logic.Relation
import Vernacular.Proofs.ConversionSteps

set_option autoImplicit false

namespace Vernacular.Surface

section Sites

def Alternative.sites : Alternative → List Position
  | .mk pos guards _ => pos :: guards.map Guard.pos

/-- A group without bindings is absent and has no position. -/
def LocalBinds.sites : LocalBinds → List Position
  | .mk pos implicitParams bs _ => if bs.isEmpty && !implicitParams then [] else [pos]

def Rhs.sites : Rhs → List Position
  | .mk alts binds => alts.flatMap Alternative.sites ++ binds.sites

def Equation.sites : Equation → List Position
  | .mk pos _ rhs => pos :: rhs.sites

def Expr.sites : Expr → List Position
  | .caseOf _ _ qs | .lambda _ qs | .lambdaCase _ qs => qs.flatMap Equation.sites
  | .letIn _ binds _ => binds.sites
  | _ => []

def Binding.sites : Binding → List Position
  | .mk _ _ qs => qs.flatMap Equation.sites

/-- The positions of the equations, alternatives, guards and local groups directly inside a node. -/
def Node.sites : Node → List Position
  | .expr e => e.sites
  | .binding _ b => b.sites
  | .pattern _ | .type _ => []

end Sites

section FailsAt

variable {α β : Type} {places : List Position}

/-- The computation leaves its fault without a position, or reports it at one of the places. -/
def FailsAt (places : List Position) (r : Except Fault α) : Prop :=
  ∀ f, r = .error f → f.position = {} ∨ f.position ∈ places

theorem failsAt_ok (a : α) : FailsAt places (.ok a) :=
  fun _ h => nomatch h

theorem failsAt_error {f : Fault} (h : f.position = {}) :
    FailsAt places (.error f : Except Fault α) := by
  intro g same
  cases same
  exact .inl h

theorem FailsAt.mono {r : Except Fault α} {more : List Position} (h : FailsAt places r)
    (subset : places ⊆ more) : FailsAt more r :=
  fun f failed => (h f failed).imp_right fun place => subset place

theorem FailsAt.bind {r : Except Fault α} {k : α → Except Fault β} (first : FailsAt places r)
    (rest : ∀ a, FailsAt places (k a)) : FailsAt places (r >>= k) := by
  cases r with
  | ok a => exact rest a
  | error f =>
    intro g same
    cases same
    exact first f rfl

theorem FailsAt.map {r : Except Fault α} (h : FailsAt places r) (k : α → β) :
    FailsAt places (r.map k) :=
  h.bind fun _ => failsAt_ok _

theorem FailsAt.locating {r : Except Fault α} {pos : Position} (h : FailsAt places r)
    (place : pos ∈ places) : FailsAt places (Fault.locating pos r) := by
  cases r with
  | ok a => exact failsAt_ok a
  | error f =>
    intro g same
    cases same
    by_cases line : f.position.line = 0
    · rw [Fault.located, if_pos line]
      exact .inr place
    · rw [located_of_line pos line]
      exact h f rfl

theorem failsAt_forM {f : α → Except Fault Unit} {xs : List α}
    (h : ∀ x ∈ xs, FailsAt places (f x)) : FailsAt places (xs.forM f) := by
  induction xs with
  | nil => exact failsAt_ok _
  | cons x xs ih =>
    obtain ⟨first, rest⟩ := List.forall_mem_cons.1 h
    exact first.bind fun _ => ih rest

theorem failsAt_numeral (what : String) (value : Option Int) :
    FailsAt places (numeral what value) := by
  unfold numeral
  split
  · exact failsAt_error rfl
  · split
    · exact failsAt_error rfl
    · exact failsAt_ok _

theorem Literal.failsAt_lower (l : Literal) : FailsAt places l.lower := by
  cases l with
  | string => exact failsAt_ok _
  | int | integer => exact (failsAt_numeral _ _).map _
  | unsupported | unknown => exact failsAt_error rfl

theorem Literal.failsAt_lowerPattern (l : Literal) : FailsAt places l.lowerPattern := by
  cases l with
  | string => exact failsAt_ok _
  | int | integer => exact (failsAt_numeral _ _).map _
  | unsupported | unknown => exact failsAt_error rfl

theorem OverLiteral.failsAt_lower (l : OverLiteral) : FailsAt places l.lower := by
  cases l with
  | string => exact failsAt_ok _
  | integral => exact (failsAt_numeral _ _).map _
  | fractional | unknown => exact failsAt_error rfl

theorem OverLiteral.failsAt_lowerPattern (l : OverLiteral) : FailsAt places l.lowerPattern := by
  cases l with
  | string => exact failsAt_ok _
  | integral => exact (failsAt_numeral _ _).map _
  | fractional | unknown => exact failsAt_error rfl

theorem Guard.failsAt_check {guard : Guard} (place : guard.pos ∈ places) :
    FailsAt places guard.check := by
  cases guard with
  | bool => exact failsAt_ok _
  | unsupported | unknown => exact (failsAt_error rfl).locating place

theorem Alternative.failsAt_checkAll (alts : List Alternative) :
    FailsAt (alts.flatMap sites) (checkAll alts) := by
  refine FailsAt.bind (failsAt_forM fun alt halt => ?_) fun _ => ?_
  · obtain ⟨pos, guards, e⟩ := alt
    refine failsAt_forM fun guard hguard => Guard.failsAt_check ?_
    exact List.mem_flatMap.2 ⟨_, halt, List.mem_cons_of_mem _ (List.mem_map_of_mem hguard)⟩
  · cases last : alts.getLast? with
    | none => exact failsAt_error rfl
    | some alt =>
      obtain ⟨pos, guards, e⟩ := alt
      have place : pos ∈ alts.flatMap sites :=
        List.mem_flatMap.2 ⟨_, List.mem_of_getLast? last, List.mem_cons_self ..⟩
      change FailsAt _ (if guards.all Guard.isTrueMarker then _ else _)
      split
      · exact failsAt_ok _
      · exact (failsAt_error rfl).locating place

theorem Equation.failsAt_checkAlternative {q : Equation} (place : q.pos ∈ places) :
    FailsAt places q.checkAlternative := by
  unfold checkAlternative
  split
  · exact (failsAt_error rfl).locating place
  · exact failsAt_ok _
  · exact (failsAt_error rfl).locating place

theorem Equation.failsAt_checkLambda {q : Equation} (place : q.pos ∈ places) :
    FailsAt places q.checkLambda := by
  unfold checkLambda
  split
  · exact (failsAt_error rfl).locating place
  · exact failsAt_ok _

end FailsAt

section Checks

variable {places more : List Position} {ts us : List Step}

/-- The checks among the steps report at the places only. -/
def ChecksAt (places : List Position) (ts : List Step) : Prop :=
  ∀ r, .check r ∈ ts → FailsAt places r

theorem checksAt_nil : ChecksAt places [] :=
  fun _ h => nomatch h

theorem checksAt_check {r : Except Fault Unit} (h : FailsAt places r) :
    ChecksAt places [.check r] := by
  intro s hs
  cases List.mem_singleton.1 hs
  exact h

theorem checksAt_error {f : Fault} (h : f.position = {}) : ChecksAt places [.check (.error f)] :=
  checksAt_check (failsAt_error h)

theorem checksAt_parts {α : Type} (f : α → Node) (xs : List α) :
    ChecksAt places (xs.map fun x => .part (f x)) := by
  intro r hr
  obtain ⟨x, _, same⟩ := List.mem_map.1 hr
  cases same

theorem ChecksAt.append (front : ChecksAt places ts) (back : ChecksAt places us) :
    ChecksAt places (ts ++ us) :=
  fun r hr => (List.mem_append.1 hr).elim (front r) (back r)

theorem ChecksAt.mono (h : ChecksAt places ts) (subset : places ⊆ more) : ChecksAt more ts :=
  fun r hr => (h r hr).mono subset

theorem ChecksAt.located {pos : Position} (h : ChecksAt places ts) (place : pos ∈ places) :
    ChecksAt places (ts.map (.located pos)) := by
  intro r hr
  obtain ⟨t, ht, same⟩ := List.mem_map.1 hr
  cases t with
  | part n => cases same
  | check s =>
    cases same
    exact (h s ht).locating place

theorem checksAt_flatMap {α : Type} {f : α → List Step} {xs : List α}
    (h : ∀ x ∈ xs, ChecksAt places (f x)) : ChecksAt places (xs.flatMap f) := by
  intro r hr
  obtain ⟨x, hx, inside⟩ := List.mem_flatMap.1 hr
  exact h x hx r inside

theorem Ty.checksAt_steps (t : Ty) : ChecksAt places t.steps := by
  cases t with
  | var | text | wildcard => exact checksAt_nil
  | app _ t u | arrow _ t u | kinded _ t u => exact checksAt_parts .type [t, u]
  | paren _ t | list _ t | strict _ t => exact checksAt_parts .type [t]
  | number _ n => exact checksAt_check (n.failsAt_lower.map _)
  | tuple _ sort ts =>
    cases sort with
    | boxed => exact checksAt_parts .type ts
    | unboxed | constraint => exact checksAt_error rfl
  | quantified _ _ vs t =>
    refine (checksAt_parts .type [t]).append ?_
    intro r hr
    obtain ⟨⟨x, kind⟩, _, same⟩ := List.mem_filterMap.1 hr
    obtain ⟨k, _, same⟩ := Option.map_eq_some_iff.1 same
    cases same
  | unsupported | unknown => exact checksAt_error rfl

theorem Pattern.checksAt_steps (p : Pattern) : ChecksAt places p.steps := by
  cases p with
  | wild | var => exact checksAt_nil
  | paren _ p | strict _ p | named _ _ p => exact checksAt_parts .pattern [p]
  | con _ _ style ps =>
    cases style with
    | ordinary => exact checksAt_parts .pattern ps
    | between | record => exact checksAt_error rfl
  | literal _ l => exact checksAt_check (l.failsAt_lowerPattern.map _)
  | overloaded _ negated l =>
    cases negated with
    | true => exact checksAt_error rfl
    | false => exact checksAt_check (l.failsAt_lowerPattern.map _)
  | unsupported | unknown => exact checksAt_error rfl

theorem Guard.checksAt_steps {guard : Guard} (place : guard.pos ∈ places) :
    ChecksAt places guard.steps := by
  cases guard with
  | bool _ e =>
    rw [Guard.steps]
    split
    · exact checksAt_nil
    · exact checksAt_parts .expr [e]
  | unsupported | unknown => exact checksAt_check (Guard.failsAt_check place)

theorem Alternative.checksAt_stepsAll (alts : List Alternative) :
    ChecksAt (alts.flatMap sites) (stepsAll alts) := by
  induction alts with
  | nil => exact checksAt_error rfl
  | cons alt alts ih =>
    obtain ⟨pos, guards, e⟩ := alt
    cases alts with
    | nil => exact checksAt_parts .expr [e]
    | cons _ _ =>
      refine ChecksAt.append (checksAt_flatMap fun guard hguard => Guard.checksAt_steps ?_)
        ((checksAt_parts .expr [e]).append (ih.mono (List.subset_append_right ..)))
      exact List.mem_append_left _ (List.mem_cons_of_mem _ (List.mem_map_of_mem hguard))

theorem LocalBinds.checksAt_steps (binds : LocalBinds) : ChecksAt binds.sites binds.steps := by
  obtain ⟨pos, implicitParams, bs, signatures⟩ := binds
  cases implicitParams with
  | false => exact checksAt_parts (fun b => .binding (signatures.lookup b.name) b) bs
  | true =>
    refine checksAt_check ((failsAt_error rfl).locating ?_)
    rw [sites, Bool.not_true, Bool.and_false, if_neg Bool.false_ne_true]
    exact List.mem_singleton_self pos

theorem Rhs.checksAt_steps (rhs : Rhs) : ChecksAt rhs.sites rhs.steps := by
  obtain ⟨alts, binds⟩ := rhs
  have own : alts.flatMap Alternative.sites ⊆ (Rhs.mk alts binds).sites :=
    List.subset_append_left ..
  have group : binds.sites ⊆ (Rhs.mk alts binds).sites := List.subset_append_right ..
  exact (checksAt_check ((Alternative.failsAt_checkAll alts).mono own)).append
    (((Alternative.checksAt_stepsAll alts).mono own).append (binds.checksAt_steps.mono group))

theorem Equation.checksAt_alternativeSteps (q : Equation) :
    ChecksAt q.sites q.alternativeSteps := by
  obtain ⟨pos, ps, rhs⟩ := q
  exact (checksAt_check (failsAt_checkAlternative (List.mem_cons_self ..))).append
    ((checksAt_parts .pattern ps).append (rhs.checksAt_steps.mono (List.subset_cons_self ..)))

theorem Equation.checksAt_stepsAll (qs : List Equation) :
    ChecksAt (qs.flatMap sites) (stepsAll qs) := by
  induction qs with
  | nil => exact checksAt_error rfl
  | cons q qs ih =>
    obtain ⟨pos, ps, rhs⟩ := q
    have inner : rhs.sites ⊆ (Equation.mk pos ps rhs :: qs).flatMap sites :=
      List.Subset.trans (List.subset_cons_self ..) (List.subset_append_left ..)
    have body := (rhs.checksAt_steps.mono inner).located (List.mem_cons_self ..)
    cases qs with
    | nil => exact (checksAt_parts .pattern ps).append body
    | cons _ _ =>
      exact (checksAt_parts .pattern ps).append
        (body.append (ih.mono (List.subset_append_right ..)))

/-- A check of every equation, made before any is converted, reports at one of them. -/
theorem Equation.failsAt_forM {check : Equation → Except Fault Unit} {qs : List Equation}
    (h : ∀ q places, q.pos ∈ places → FailsAt places (check q)) :
    FailsAt (qs.flatMap sites) (qs.forM check) := by
  refine Surface.failsAt_forM fun q hq => h q _ (List.mem_flatMap.2 ⟨q, hq, ?_⟩)
  obtain ⟨pos, ps, rhs⟩ := q
  exact List.mem_cons_self ..

theorem Expr.checksAt_steps (e : Expr) : ChecksAt e.sites e.steps := by
  cases e with
  | var => exact checksAt_nil
  | app _ f a => exact checksAt_parts .expr [f, a]
  | paren _ e | tick _ _ e => exact checksAt_parts .expr [e]
  | ite _ rebindable c y n =>
    cases rebindable with
    | true => exact checksAt_error rfl
    | false => exact checksAt_parts .expr [c, y, n]
  | caseOf _ e qs =>
    refine (checksAt_parts .expr [e]).append (checksAt_flatMap fun q hq => ?_)
    exact q.checksAt_alternativeSteps.mono fun _ place => List.mem_flatMap.2 ⟨q, hq, place⟩
  | literal _ l => exact checksAt_check (l.failsAt_lower.map _)
  | overloaded _ l => exact checksAt_check (l.failsAt_lower.map _)
  | letIn _ binds e => exact (checksAt_parts .expr [e]).append binds.checksAt_steps
  | ascribed _ e sig => exact (checksAt_parts .expr [e]).append (checksAt_parts .type [sig])
  | lambda _ qs =>
    exact (checksAt_check (Equation.failsAt_forM fun _ _ => Equation.failsAt_checkLambda)).append
      (Equation.checksAt_stepsAll qs)
  | lambdaCase _ qs =>
    exact (checksAt_check
      (Equation.failsAt_forM fun _ _ => Equation.failsAt_checkAlternative)).append
      (Equation.checksAt_stepsAll qs)
  | unsupported | unknown => exact checksAt_error rfl

theorem Equation.checksAt_functionSteps (q : Equation) (qs : List Equation) :
    ChecksAt ((q :: qs).flatMap sites) (q.functionSteps qs) := by
  unfold functionSteps
  split
  · exact checksAt_error rfl
  · split
    · exact checksAt_error rfl
    · exact checksAt_stepsAll (q :: qs)

theorem Binding.checksAt_steps (signature : Option Ty) (b : Binding) :
    ChecksAt b.sites (b.steps signature) := by
  obtain ⟨pos, x, qs⟩ := b
  refine (checksAt_parts .type _).append ?_
  cases qs with
  | nil => exact checksAt_error rfl
  | cons q qs =>
    obtain ⟨_, ps, rhs⟩ := q
    cases ps with
    | cons p ps => exact Equation.checksAt_functionSteps _ _
    | nil =>
      cases qs with
      | cons r qs => exact Equation.checksAt_functionSteps _ _
      | nil =>
        exact rhs.checksAt_steps.mono
          (List.Subset.trans (List.subset_cons_self ..) (List.subset_append_left ..))

theorem Node.checksAt_steps (n : Node) : ChecksAt n.sites n.steps := by
  cases n with
  | expr e => exact e.checksAt_steps
  | pattern p => exact p.checksAt_steps
  | type t => exact t.checksAt_steps
  | binding signature b => exact b.checksAt_steps signature

end Checks

section Innermost

/-- The node, the pieces directly inside it and all nodes that its conversion may look at have a
line. -/
inductive Node.Placed : Node → Prop
  | mk {n : Node} (line : n.pos.line ≠ 0) (sites : ∀ p ∈ n.sites, p.line ≠ 0)
      (parts : ∀ m, .part m ∈ n.steps → m.Placed) : n.Placed

variable {table : Table}

/-- The conversion of the first node gets as far as converting the second one, directly inside it:
no step before that fails. -/
def Node.Attempts (table : Table) (m n : Node) : Prop :=
  ∃ front back, m.steps = front ++ .part n :: back ∧ ∀ s ∈ front, s.fault? table = none

theorem Node.Attempts.mem {m n : Node} (h : m.Attempts table n) : .part n ∈ m.steps := by
  obtain ⟨front, back, steps, _⟩ := h
  exact steps ▸ List.mem_append_right _ (List.mem_cons_self ..)

namespace Node.Placed

variable {m n : Node} {f : Fault}

theorem line_ne (placed : m.Placed) : m.pos.line ≠ 0 := by
  cases placed
  assumption

theorem fault_eq (placed : m.Placed) :
    m.fault? table = (m.steps.findSome? (Step.fault? table)).map (Fault.located m.pos) := by
  cases placed with
  | mk _ _ parts => exact m.fault_eq fun n hn => (parts n hn).line_ne

theorem part (placed : m.Placed) (attempted : m.Attempts table n) : n.Placed := by
  cases placed with
  | mk _ _ parts => exact parts n attempted.mem

/-- The fault of a part that is attempted is that of the whole, unchanged. -/
theorem fault_of_attempts (placed : m.Placed) (attempted : m.Attempts table n)
    (failed : n.fault? table = some f) : m.fault? table = some f := by
  have line := n.line_of_fault (placed.part attempted).line_ne failed
  obtain ⟨front, back, steps, before⟩ := attempted
  have first : m.steps.findSome? (Step.fault? table) = some f :=
    List.findSome?_eq_some_iff.2 ⟨front, .part n, back, steps, failed, before⟩
  rw [placed.fault_eq, first, Option.map_some, located_of_line _ line]

/-- A fault that no part gives is reported at the node or at a piece directly inside it. -/
theorem position_of_own (placed : m.Placed) (failed : m.fault? table = some f)
    (own : ∀ n, m.Attempts table n → n.fault? table = none) :
    f.position = m.pos ∨ f.position ∈ m.sites := by
  rw [placed.fault_eq, Option.map_eq_some_iff] at failed
  obtain ⟨g, first, rfl⟩ := failed
  obtain ⟨front, s, back, steps, fails, before⟩ := List.findSome?_eq_some_iff.1 first
  cases s with
  | part n =>
    have none := own n ⟨front, back, steps, before⟩
    rw [Step.fault?, none] at fails
    cases fails
  | check r =>
    have check : .check r ∈ m.steps := steps ▸ List.mem_append_right _ (List.mem_cons_self ..)
    have place := m.checksAt_steps r check g (faultOf_eq_some.1 fails)
    by_cases line : g.position.line = 0
    · rw [Fault.located, if_pos line]
      exact .inl rfl
    · rw [located_of_line _ line]
      refine .inr (place.resolve_left fun nowhere => line ?_)
      rw [nowhere]

/-- Every fault comes from a node below which nothing fails, through nodes that all fail with it. -/
theorem exists_innermost (placed : m.Placed) (failed : m.fault? table = some f) :
    ∃ n, Relation.ReflTransGen (fun m n => m.Attempts table n ∧ n.fault? table = some f) m n ∧
      (∀ k, n.Attempts table k → k.fault? table = none) ∧
      (f.position = n.pos ∨ f.position ∈ n.sites) := by
  induction placed with
  | @mk m line sites parts ih =>
    have placed : m.Placed := .mk line sites parts
    by_cases own : ∀ n, m.Attempts table n → n.fault? table = none
    · exact ⟨m, .refl, own, placed.position_of_own failed own⟩
    · push Not at own
      obtain ⟨n, attempted, fails⟩ := own
      obtain ⟨g, hg⟩ := Option.ne_none_iff_exists'.1 fails
      have same : g = f := by
        rw [placed.fault_of_attempts attempted hg] at failed
        exact Option.some.inj failed
      subst same
      obtain ⟨k, path, innermost⟩ := ih n attempted.mem hg
      exact ⟨k, .head ⟨attempted, hg⟩ path, innermost⟩

end Node.Placed

/-- An expression fails with the fault of the part that fails first, unchanged. Where no part
fails, the fault is at the expression or at a piece directly inside it. So every fault is at the
innermost node that fails with it. -/
theorem Expr.fault_from_innermost (table : Table) (e : Expr) (placed : (Node.expr e).Placed) :
    (∀ n f, (Node.expr e).Attempts table n → n.fault? table = some f → e.lower table = .error f) ∧
    ∀ f, e.lower table = .error f →
      ((∀ n, (Node.expr e).Attempts table n → n.fault? table = none) →
        f.position = e.pos ∨ f.position ∈ e.sites) ∧
      ∃ n : Node,
        Relation.ReflTransGen (fun m n : Node => m.Attempts table n ∧ n.fault? table = some f)
          (.expr e) n ∧
        (∀ k, n.Attempts table k → k.fault? table = none) ∧
        (f.position = n.pos ∨ f.position ∈ n.sites) := by
  refine ⟨fun n f attempted failed => ?_, fun f failed => ⟨fun own => ?_, ?_⟩⟩
  · exact faultOf_eq_some.1 (placed.fault_of_attempts attempted failed)
  · exact placed.position_of_own (faultOf_eq_some.2 failed) own
  · exact placed.exists_innermost (faultOf_eq_some.2 failed)

/-- A conditional with an operator, and after it an explicit list, which is not looked at. -/
def operatorBranch : Expr :=
  .ite ⟨3, 9⟩ false (.var ⟨3, 12⟩ "x") (.unsupported ⟨3, 15⟩ .operator)
    (.unsupported ⟨3, 20⟩ .list)

/-- A function literal with two alternatives, the last one with the operator, as an argument. -/
def operatorInside : Expr :=
  .app ⟨1, 1⟩ (.var ⟨1, 1⟩ "f") (.lambda ⟨1, 4⟩ [.mk ⟨1, 5⟩ [.var ⟨1, 5⟩ "x"] (.mk
    [.mk ⟨2, 3⟩ [.bool ⟨2, 5⟩ (.var ⟨2, 5⟩ "x")] (.var ⟨2, 9⟩ "x"),
      .mk ⟨3, 3⟩ [.bool ⟨3, 5⟩ (.var ⟨3, 5⟩ "otherwise")] operatorBranch]
    .none)])

def operatorFault : Fault :=
  { Fault.unsupported "binary operators" with position := ⟨3, 15⟩ }

theorem operatorInside_placed : (Node.expr operatorInside).Placed := by
  have var (p : Position) (x : String) (line : p.line ≠ 0) : (Node.expr (.var p x)).Placed :=
    .mk line (List.forall_mem_nil _) (by simp [Node.steps, Expr.steps])
  have unsupported (p : Position) (form : ExprForm) (line : p.line ≠ 0) :
      (Node.expr (.unsupported p form)).Placed :=
    .mk line (List.forall_mem_nil _) (by simp [Node.steps, Expr.steps])
  have pattern : (Node.pattern (.var ⟨1, 5⟩ "x")).Placed :=
    .mk (by decide) (List.forall_mem_nil _) (by simp [Node.steps, Pattern.steps])
  have branch : (Node.expr operatorBranch).Placed := by
    refine .mk (by decide) (List.forall_mem_nil _) ?_
    simp [Node.steps, operatorBranch, Expr.steps, var, unsupported]
  refine .mk (by decide) (List.forall_mem_nil _) ?_
  simp only [Node.steps, operatorInside, Expr.steps, List.mem_cons, Step.part.injEq,
    List.not_mem_nil, or_false, forall_eq_or_imp, forall_eq]
  refine ⟨var _ _ (by decide), .mk (by decide) (by decide) ?_⟩
  simp [Node.steps, Expr.steps, Equation.stepsAll, Rhs.steps, Alternative.stepsAll, Guard.steps,
    Expr.isTrueMarker, LocalBinds.steps, LocalBinds.none, Step.located, var, pattern, branch]

theorem operatorInside_position :
    (Node.expr operatorInside).Placed ∧ operatorInside.lower .empty = .error operatorFault ∧
      ∃ n : Node,
        Relation.ReflTransGen
          (fun m n : Node => m.Attempts .empty n ∧ n.fault? .empty = some operatorFault)
          (.expr operatorInside) n ∧
        (∀ k, n.Attempts .empty k → k.fault? .empty = none) ∧
        (⟨3, 15⟩ = n.pos ∨ ⟨3, 15⟩ ∈ n.sites) :=
  ⟨operatorInside_placed, rfl,
    ((Expr.fault_from_innermost .empty operatorInside operatorInside_placed).2 _ rfl).2⟩

end Innermost

end Vernacular.Surface
