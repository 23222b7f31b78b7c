import Vernacular.Proofs.Outcome

/-!
What the conversion of a node does, step by step: it checks the node, and converts the nodes
directly inside it. The first step that fails gives the fault, which is then located at the node.
-/

set_option autoImplicit false

namespace Vernacular.Surface

/-- The nodes that have a conversion of their own. A binding is converted with its signature. -/
inductive Node where
  | expr (e : Expr)
  | pattern (p : Pattern)
  | type (t : Ty)
  | binding (signature : Option Ty) (b : Binding)

/-- One step of a conversion: the conversion of a node inside, or a check that needs none. -/
inductive Step where
  | part (node : Node)
  | check (result : Except Fault Unit)

def Step.located (pos : Position) : Step → Step
  | .part n => .part n
  | .check r => .check (Fault.locating pos r)

def TyVar.stepsAll (vs : List TyVar) : List Step :=
  vs.filterMap fun | .mk _ kind => kind.map fun k => .part (.type k)

def Ty.steps : Ty → List Step
  | .var _ _ | .text _ _ | .wildcard _ => []
  | .app _ t u | .arrow _ t u | .kinded _ t u => [.part (.type t), .part (.type u)]
  | .paren _ t | .list _ t | .strict _ t => [.part (.type t)]
  | .number _ n => [.check (n.lower.map fun _ => ())]
  | .tuple _ .boxed ts => ts.map fun t => .part (.type t)
  | .tuple _ .unboxed _ => [.check (.error (.unsupported "unboxed tuples"))]
  | .tuple _ .constraint _ => [.check (.error (.unsupported "constraint tuples"))]
  | .quantified _ _ vs t => .part (.type t) :: TyVar.stepsAll vs
  | .unsupported _ form => [.check (.error (.unsupported form.description))]
  | .unknown _ => [.check (.error (.malformed .unknownType))]

def Pattern.steps : Pattern → List Step
  | .wild _ | .var _ _ => []
  | .paren _ p | .strict _ p | .named _ _ p => [.part (.pattern p)]
  | .con _ _ .ordinary ps => ps.map fun p => .part (.pattern p)
  | .con _ _ .between _ => [.check (.error (.unsupported "infix constructor patterns"))]
  | .con _ _ .record _ => [.check (.error (.unsupported "record constructor patterns"))]
  | .literal _ l => [.check (l.lowerPattern.map fun _ => ())]
  | .overloaded _ true _ => [.check (.error (.unsupported "negative literal patterns"))]
  | .overloaded _ false l => [.check (l.lowerPattern.map fun _ => ())]
  | .unsupported _ form => [.check (.error (.unsupported form.description))]
  | .unknown _ => [.check (.error (.malformed .unknownPattern))]

/-- A guard that holds by its form is not converted. -/
def Guard.steps : Guard → List Step
  | .bool _ e => if e.isTrueMarker then [] else [.part (.expr e)]
  | guard => [.check guard.check]

/-- The guards of the last alternative are not converted. -/
def Alternative.stepsAll : List Alternative → List Step
  | [] => [.check (.error (.malformed .noAlternatives))]
  | [.mk _ _ e] => [.part (.expr e)]
  | .mk _ guards e :: alts =>
    guards.flatMap Guard.steps ++ .part (.expr e) :: Alternative.stepsAll alts

def LocalBinds.steps : LocalBinds → List Step
  | .mk pos true _ _ =>
    [.check (Fault.locating pos (.error (.unsupported "implicit parameter bindings")))]
  | .mk _ false bs signatures => bs.map fun b => .part (.binding (signatures.lookup b.name) b)

def Rhs.steps : Rhs → List Step
  | .mk alts binds =>
    .check (Alternative.checkAll alts) :: (Alternative.stepsAll alts ++ binds.steps)

def Equation.alternativeSteps : Equation → List Step
  | .mk pos ps rhs =>
    .check (Equation.checkAlternative (.mk pos ps rhs)) ::
      (ps.map (fun p => .part (.pattern p)) ++ rhs.steps)

/-- The steps of the equations of a function. The faults of a right-hand side are located at the
equation. -/
def Equation.stepsAll : List Equation → List Step
  | [] => [.check (.error (.malformed .functionWithoutEquations))]
  | [.mk pos ps rhs] => ps.map (fun p => .part (.pattern p)) ++ rhs.steps.map (.located pos)
  | .mk pos ps rhs :: qs =>
    ps.map (fun p => .part (.pattern p)) ++ (rhs.steps.map (.located pos) ++ Equation.stepsAll qs)

def Expr.steps : Expr → List Step
  | .var _ _ => []
  | .app _ f a => [.part (.expr f), .part (.expr a)]
  | .paren _ e | .tick _ _ e => [.part (.expr e)]
  | .ite _ true _ _ _ => [.check (.error (.unsupported "overloaded if-then-else"))]
  | .ite _ false c y n => [.part (.expr c), .part (.expr y), .part (.expr n)]
  | .caseOf _ e qs => .part (.expr e) :: qs.flatMap Equation.alternativeSteps
  | .literal _ l => [.check (l.lower.map fun _ => ())]
  | .overloaded _ l => [.check (l.lower.map fun _ => ())]
  | .letIn _ binds e => .part (.expr e) :: binds.steps
  | .ascribed _ e sig => [.part (.expr e), .part (.type sig)]
  | .lambda _ qs => .check (qs.forM Equation.checkLambda) :: Equation.stepsAll qs
  | .lambdaCase _ qs => .check (qs.forM Equation.checkAlternative) :: Equation.stepsAll qs
  | .unsupported _ form => [.check (.error (.unsupported form.description))]
  | .unknown _ => [.check (.error (.malformed .unknownExpression))]

def Equation.functionSteps (q : Equation) (qs : List Equation) : List Step :=
  if (q :: qs).all (·.patterns.isEmpty) then [.check (.error (.malformed .repeatedVariable))]
  else if q.patterns.isEmpty then [.check (.error (.malformed .differingArity))]
  else Equation.stepsAll (q :: qs)

def Binding.bodySteps : List Equation → List Step
  | [] => [.check (.error (.malformed .bindingWithoutEquations))]
  | [.mk _ [] rhs] => rhs.steps
  | q :: qs => q.functionSteps qs

def Binding.steps (signature : Option Ty) : Binding → List Step
  | .mk _ _ qs => signature.toList.map (fun t => .part (.type t)) ++ bodySteps qs

def Ty.pos : Ty → Position
  | .var p _ | .app p _ _ | .arrow p _ _ | .paren p _ | .kinded p _ _ | .number p _ | .text p _
  | .wildcard p | .list p _ | .tuple p _ _ | .quantified p _ _ _ | .strict p _ | .unsupported p _
  | .unknown p => p

def Pattern.pos : Pattern → Position
  | .wild p | .var p _ | .paren p _ | .strict p _ | .named p _ _ | .con p _ _ _ | .literal p _
  | .overloaded p _ _ | .unsupported p _ | .unknown p => p

def Expr.pos : Expr → Position
  | .var p _ | .app p _ _ | .paren p _ | .ite p _ _ _ _ | .caseOf p _ _ | .literal p _
  | .overloaded p _ | .letIn p _ _ | .ascribed p _ _ | .lambda p _ | .lambdaCase p _ | .tick p _ _
  | .unsupported p _ | .unknown p => p

def Guard.pos : Guard → Position
  | .bool p _ | .unsupported p _ | .unknown p => p

def Binding.pos : Binding → Position
  | .mk p _ _ => p

namespace Node

def pos : Node → Position
  | .expr e => e.pos
  | .pattern p => p.pos
  | .type t => t.pos
  | .binding _ b => b.pos

def steps : Node → List Step
  | .expr e => e.steps
  | .pattern p => p.steps
  | .type t => t.steps
  | .binding signature b => b.steps signature

end Node

section Runs

variable {α β : Type}

def faultOf (r : Except Fault α) : Option Fault :=
  match r with
  | .ok _ => none
  | .error f => some f

variable (table : Table)

def Node.fault? : Node → Option Fault
  | .expr e => faultOf (e.lower table)
  | .pattern p => faultOf (p.lower table)
  | .type t => faultOf (t.lower table)
  | .binding signature b => faultOf (b.lower table signature)

def Step.fault? : Step → Option Fault
  | .part n => n.fault? table
  | .check r => faultOf r

/-- The steps are those of the computation: it fails with the fault of the first that fails. -/
def Runs (steps : List Step) (r : Except Fault α) : Prop :=
  faultOf r = steps.findSome? (Step.fault? table)

variable {table} {ts us : List Step}

theorem Runs.bind {r : Except Fault α} {k : α → Except Fault β} (first : Runs table ts r)
    (rest : ∀ a, Runs table us (k a)) : Runs table (ts ++ us) (r >>= k) := by
  unfold Runs at first
  rw [Runs, List.findSome?_append, ← first]
  cases r with
  | ok a => exact rest a
  | error f => rfl

theorem Runs.last {r : Except Fault α} {k : α → β} (h : Runs table ts r) :
    Runs table ts (r >>= fun a => pure (k a)) := by
  have whole : Runs table (ts ++ []) (r >>= fun a => pure (k a)) := h.bind fun _ => rfl
  rwa [List.append_nil] at whole

theorem Runs.map {r : Except Fault α} {k : α → β} (h : Runs table ts r) :
    Runs table ts (r.map k) :=
  h.last

theorem runs_ok (a : α) : Runs table [] (.ok a) :=
  rfl

theorem runs_error (f : Fault) : Runs table [.check (.error f)] (.error f : Except Fault α) :=
  rfl

theorem runs_check (r : Except Fault Unit) : Runs table [.check r] r := by
  cases r <;> rfl

theorem runs_checked (r : Except Fault α) : Runs table [.check (r.map fun _ => ())] r := by
  cases r <;> rfl

theorem runs_part {n : Node} {r : Except Fault α} (h : faultOf r = n.fault? table) :
    Runs table [.part n] r := by
  rw [Runs, h, List.findSome?_singleton, Step.fault?]

theorem runs_expr (e : Expr) : Runs table [.part (.expr e)] (e.lower table) :=
  runs_part rfl

theorem runs_pattern (p : Pattern) : Runs table [.part (.pattern p)] (p.lower table) :=
  runs_part rfl

theorem runs_type (t : Ty) : Runs table [.part (.type t)] (t.lower table) :=
  runs_part rfl

theorem faultOf_locating (pos : Position) (r : Except Fault α) :
    faultOf (Fault.locating pos r) = (faultOf r).map (Fault.located pos) := by
  cases r <;> rfl

theorem faultOf_eq_some {r : Except Fault α} {f : Fault} : faultOf r = some f ↔ r = .error f := by
  cases r with
  | ok a => exact ⟨nofun, nofun⟩
  | error g => rw [faultOf, Option.some.injEq, Except.error.injEq]

theorem Runs.fault_locating {r : Except Fault α} (pos : Position) (h : Runs table ts r) :
    faultOf (Fault.locating pos r) =
      (ts.findSome? (Step.fault? table)).map (Fault.located pos) := by
  rw [faultOf_locating, h]

end Runs

section Lines

variable {table : Table}

theorem line_located {p : Position} (f : Fault) (h : p.line ≠ 0) :
    (f.located p).position.line ≠ 0 := by
  unfold Fault.located
  split
  · exact h
  · assumption

theorem located_of_line {f : Fault} (p : Position) (h : f.position.line ≠ 0) : f.located p = f :=
  if_neg h

theorem located_located (p : Position) (f : Fault) : (f.located p).located p = f.located p := by
  by_cases h : f.position.line = 0
  · simp only [Fault.located, h, if_true, ite_self]
  · rw [located_of_line p h, located_of_line p h]

theorem locating_locating {α : Type} (p : Position) (r : Except Fault α) :
    Fault.locating p (Fault.locating p r) = Fault.locating p r := by
  cases r with
  | ok a => rfl
  | error f => exact congrArg Except.error (located_located p f)

theorem Ty.locating_lower (t : Ty) : Fault.locating t.pos (t.lower table) = t.lower table := by
  cases t with
  | var | text | wildcard => rfl
  | _ => exact locating_locating ..

theorem Pattern.locating_lower (p : Pattern) :
    Fault.locating p.pos (p.lower table) = p.lower table := by
  cases p with
  | wild | var => rfl
  | _ => exact locating_locating ..

theorem Expr.locating_lower (e : Expr) : Fault.locating e.pos (e.lower table) = e.lower table := by
  cases e with
  | var => rfl
  | _ => exact locating_locating ..

theorem Binding.locating_lower (signature : Option Ty) (b : Binding) :
    Fault.locating b.pos (b.lower table signature) = b.lower table signature := by
  cases b with
  | mk =>
    unfold Binding.lower
    exact locating_locating ..

/-- A conversion locates its faults at its node. -/
theorem Node.located_fault (table : Table) (n : Node) :
    (n.fault? table).map (Fault.located n.pos) = n.fault? table := by
  cases n with
  | expr e => rw [Node.fault?, Node.pos, ← faultOf_locating, e.locating_lower]
  | pattern p => rw [Node.fault?, Node.pos, ← faultOf_locating, p.locating_lower]
  | type t => rw [Node.fault?, Node.pos, ← faultOf_locating, t.locating_lower]
  | binding sig b => rw [Node.fault?, Node.pos, ← faultOf_locating, b.locating_lower]

theorem Node.line_of_fault {n : Node} {f : Fault} (line : n.pos.line ≠ 0)
    (failed : n.fault? table = some f) : f.position.line ≠ 0 := by
  have located := n.located_fault table
  rw [failed, Option.map_some, Option.some.injEq] at located
  rw [← located]
  exact line_located f line

/-- Locating a computation once more changes its checks only. -/
theorem Runs.locating {α : Type} {ts : List Step} {r : Except Fault α} (pos : Position)
    (h : Runs table ts r) (lines : ∀ n, .part n ∈ ts → n.pos.line ≠ 0) :
    Runs table (ts.map (.located pos)) (Fault.locating pos r) := by
  rw [Runs, h.fault_locating]
  clear h
  induction ts with
  | nil => rfl
  | cons t ts ih =>
    have rest := ih fun n hn => lines n (List.mem_cons_of_mem _ hn)
    have first : (t.located pos).fault? table = (t.fault? table).map (Fault.located pos) := by
      cases t with
      | check r => exact faultOf_locating pos r
      | part n =>
        rw [Step.located, Step.fault?]
        cases failed : n.fault? table with
        | none => rfl
        | some f =>
          have line := n.line_of_fault (lines n (List.mem_cons_self ..)) failed
          rw [Option.map_some, located_of_line pos line]
    rw [List.map_cons, List.findSome?_cons, List.findSome?_cons, first, ← rest]
    cases t.fault? table <;> rfl

end Lines

section Conversions

variable {table : Table}

theorem Ty.runs_lowerAll (ts : List Ty) :
    Runs table (ts.map fun t => .part (.type t)) (Ty.lowerAll table ts) := by
  induction ts with
  | nil => exact runs_ok _
  | cons t ts ih => exact (runs_type t).bind fun _ => ih.last

theorem TyVar.runs_lowerAll (vs : List TyVar) :
    Runs table (TyVar.stepsAll vs) (TyVar.lowerAll table vs) := by
  induction vs with
  | nil => exact runs_ok _
  | cons v vs ih =>
    obtain ⟨x, kind⟩ := v
    cases kind with
    | none => exact ih.last
    | some k => exact (runs_type k).bind fun _ => ih.last

theorem Ty.fault_lower (t : Ty) :
    faultOf (t.lower table) =
      (t.steps.findSome? (Step.fault? table)).map (Fault.located t.pos) := by
  cases t with
  | var | text | wildcard => rfl
  | app pos t u | arrow pos t u | kinded pos t u =>
    exact ((runs_type t).bind fun _ => (runs_type u).last).fault_locating pos
  | paren pos t | list pos t => exact (runs_type t).last.fault_locating pos
  | strict pos t => exact (runs_type t).fault_locating pos
  | number pos n => exact (runs_checked _).fault_locating pos
  | tuple pos sort ts =>
    cases sort with
    | boxed => exact (Ty.runs_lowerAll ts).last.fault_locating pos
    | unboxed | constraint => rfl
  | quantified pos implicit vs t =>
    refine Runs.fault_locating pos ((runs_type t).bind fun _ => ?_)
    -- Without variables the binders are found, not converted.
    by_cases h : (implicit && vs.isEmpty) = true
    · rw [if_pos h, List.isEmpty_iff.1 (Bool.and_eq_true_iff.1 h).2]
      rfl
    · rw [if_neg h]
      exact (TyVar.runs_lowerAll vs).last
  | unsupported | unknown => rfl

theorem Pattern.runs_lowerAll (ps : List Pattern) :
    Runs table (ps.map fun p => .part (.pattern p)) (Pattern.lowerAll table ps) := by
  induction ps with
  | nil => exact runs_ok _
  | cons p ps ih => exact (runs_pattern p).bind fun _ => ih.last

theorem Pattern.fault_lower (p : Pattern) :
    faultOf (p.lower table) =
      (p.steps.findSome? (Step.fault? table)).map (Fault.located p.pos) := by
  cases p with
  | wild | var => rfl
  | paren pos p | strict pos p => exact (runs_pattern p).fault_locating pos
  | named pos x p => exact (runs_pattern p).last.fault_locating pos
  | con pos c style ps =>
    cases style with
    | ordinary => exact (Pattern.runs_lowerAll ps).last.fault_locating pos
    | between | record => rfl
  | literal pos l => exact (runs_checked _).fault_locating pos
  | overloaded pos negated l =>
    cases negated with
    | true => rfl
    | false => exact (runs_checked _).fault_locating pos
  | unsupported | unknown => rfl

theorem Guard.runs_lower (guard : Guard) : Runs table guard.steps (guard.lower table) := by
  cases guard with
  | bool pos e =>
    rw [Guard.steps, Guard.lower]
    split
    · exact runs_ok _
    · exact runs_expr e
  | unsupported | unknown => rfl

theorem Guard.runs_lowerAll (guards : List Guard) :
    Runs table (guards.flatMap Guard.steps) (Guard.lowerAll table guards) := by
  induction guards with
  | nil => exact runs_ok _
  | cons guard guards ih => exact guard.runs_lower.bind fun _ => ih.last

theorem Alternative.runs_lowerChain (alts : List Alternative) :
    Runs table (stepsAll alts) (lowerChain table alts) := by
  induction alts with
  | nil => exact runs_error _
  | cons alt alts ih =>
    obtain ⟨_, guards, e⟩ := alt
    cases alts with
    | nil => exact runs_expr e
    | cons _ _ =>
      exact (Guard.runs_lowerAll guards).bind fun _ => (runs_expr e).bind fun _ => ih.last

theorem Binding.runs_lowerAll (signatures : List (String × Ty)) (bs : List Binding) :
    Runs table (bs.map fun b => .part (.binding (signatures.lookup b.name) b))
      (Binding.lowerAll table signatures bs) := by
  induction bs with
  | nil => exact runs_ok _
  | cons b bs ih =>
    obtain ⟨_, _, _⟩ := b
    exact (runs_part rfl).bind fun _ => ih.last

theorem LocalBinds.runs_lower (binds : LocalBinds) :
    Runs table binds.steps (binds.lower table) := by
  obtain ⟨pos, implicitParams, bs, signatures⟩ := binds
  cases implicitParams with
  | true => rfl
  | false => exact Binding.runs_lowerAll signatures bs

theorem Rhs.runs_lower (rhs : Rhs) : Runs table rhs.steps (rhs.lower table) := by
  obtain ⟨alts, binds⟩ := rhs
  exact (runs_check _).bind fun _ => (Alternative.runs_lowerChain alts).bind fun _ =>
    binds.runs_lower.last

theorem Equation.runs_lowerAlternatives (qs : List Equation) :
    Runs table (qs.flatMap alternativeSteps) (lowerAlternatives table qs) := by
  induction qs with
  | nil => exact runs_ok _
  | cons q qs ih =>
    obtain ⟨pos, ps, rhs⟩ := q
    rw [List.flatMap_cons, alternativeSteps, List.cons_append, List.append_assoc]
    exact (runs_check _).bind fun _ => (Pattern.runs_lowerAll ps).bind fun _ =>
      rhs.runs_lower.bind fun _ => ih.last

theorem part_mem_map_located {n : Node} {pos : Position} {ts : List Step} :
    Step.part n ∈ ts.map (Step.located pos) ↔ Step.part n ∈ ts := by
  rw [List.mem_map]
  constructor
  · rintro ⟨t, ht, same⟩
    cases t with
    | part m => exact same ▸ ht
    | check r => cases same
  · exact fun h => ⟨_, h, rfl⟩

theorem Equation.runs_lowerAll :
    ∀ qs : List Equation, (∀ n, .part n ∈ stepsAll qs → n.pos.line ≠ 0) →
      Runs table (stepsAll qs) (lowerAll table qs)
  | [], _ => runs_error _
  | [.mk pos ps rhs], lines => by
    have body : Runs table _ (Fault.locating pos _) := rhs.runs_lower.locating pos fun n hn =>
      lines n (List.mem_append_right _ (part_mem_map_located.2 hn))
    exact (Pattern.runs_lowerAll ps).bind fun _ => body.last
  | .mk pos ps rhs :: q :: qs, lines => by
    have later : ∀ n, .part n ∈ rhs.steps.map (.located pos) ++ stepsAll (q :: qs) →
        n.pos.line ≠ 0 := fun n hn => lines n (List.mem_append_right _ hn)
    have body : Runs table _ (Fault.locating pos _) := rhs.runs_lower.locating pos fun n hn =>
      later n (List.mem_append_left _ (part_mem_map_located.2 hn))
    have rest := Equation.runs_lowerAll (q :: qs) fun n hn =>
      later n (List.mem_append_right _ hn)
    exact (Pattern.runs_lowerAll ps).bind fun _ => body.bind fun _ => rest.last

theorem Expr.fault_lower (e : Expr) (lines : ∀ n, .part n ∈ e.steps → n.pos.line ≠ 0) :
    faultOf (e.lower table) =
      (e.steps.findSome? (Step.fault? table)).map (Fault.located e.pos) := by
  cases e with
  | var => rfl
  | app pos f a => exact ((runs_expr f).bind fun _ => (runs_expr a).last).fault_locating pos
  | paren pos e => exact (runs_expr e).last.fault_locating pos
  | tick pos x e => exact (runs_expr e).fault_locating pos
  | ite pos rebindable c y n =>
    cases rebindable with
    | true => rfl
    | false =>
      exact ((runs_expr c).bind fun _ => (runs_expr y).bind fun _ =>
        (runs_expr n).last).fault_locating pos
  | caseOf pos e qs =>
    exact ((runs_expr e).bind fun _ => (Equation.runs_lowerAlternatives qs).last).fault_locating pos
  | literal pos l | overloaded pos l => exact (runs_checked _).fault_locating pos
  | letIn pos binds e =>
    exact ((runs_expr e).bind fun _ => binds.runs_lower.last).fault_locating pos
  | ascribed pos e sig =>
    exact ((runs_expr e).bind fun _ => (runs_type sig).last).fault_locating pos
  | lambda pos qs | lambdaCase pos qs =>
    have arms : Runs table _ _ := Equation.runs_lowerAll qs fun n hn =>
      lines n (List.mem_cons_of_mem _ hn)
    exact ((runs_check _).bind fun _ => arms.last).fault_locating pos
  | unsupported | unknown => rfl

theorem runs_lowerSignature (signature : Option Ty) :
    Runs table (signature.toList.map fun t => .part (.type t))
      (lowerSignature table signature) := by
  cases signature with
  | none => exact runs_ok _
  | some t => exact (runs_type t).last

theorem Equation.runs_function {q : Equation} {qs : List Equation} (k : List Arm → Term)
    (lines : ∀ n, .part n ∈ q.functionSteps qs → n.pos.line ≠ 0) :
    Runs table (q.functionSteps qs)
      (if (q :: qs).all (·.patterns.isEmpty) then .error (.malformed .repeatedVariable)
        else if q.patterns.isEmpty then .error (.malformed .differingArity)
        else (lowerAll table (q :: qs)).map k) := by
  unfold functionSteps at lines ⊢
  split
  · exact runs_error _
  · split
    · exact runs_error _
    · simp only [*, Bool.false_eq_true, if_false] at lines
      exact (Equation.runs_lowerAll (q :: qs) lines).map

theorem Binding.fault_lower (signature : Option Ty) (b : Binding)
    (lines : ∀ n, .part n ∈ b.steps signature → n.pos.line ≠ 0) :
    faultOf (b.lower table signature) =
      ((b.steps signature).findSome? (Step.fault? table)).map (Fault.located b.pos) := by
  obtain ⟨pos, x, qs⟩ := b
  have inside : ∀ n, .part n ∈ bodySteps qs → n.pos.line ≠ 0 :=
    fun n hn => lines n (List.mem_append_right _ hn)
  unfold Binding.lower
  refine ((runs_lowerSignature signature).bind fun _ => Runs.last ?_).fault_locating pos
  -- The cases are those of the two matches on the equations, which overlap.
  cases qs with
  | nil => exact runs_error _
  | cons q qs =>
    obtain ⟨_, ps, rhs⟩ := q
    cases ps with
    | cons p ps => exact Equation.runs_function _ inside
    | nil =>
      cases qs with
      | nil => exact rhs.runs_lower
      | cons r qs => exact Equation.runs_function _ inside

/-- The fault of a conversion is that of the first step that fails, located at the node. -/
theorem Node.fault_eq (n : Node) (lines : ∀ m, .part m ∈ n.steps → m.pos.line ≠ 0) :
    n.fault? table = (n.steps.findSome? (Step.fault? table)).map (Fault.located n.pos) := by
  cases n with
  | expr e => exact e.fault_lower lines
  | pattern p => exact p.fault_lower
  | type t => exact t.fault_lower
  | binding signature b => exact b.fault_lower signature lines

end Conversions

end Vernacular.Surface
