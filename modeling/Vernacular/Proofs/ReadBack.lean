import Vernacular.Proofs.Reader

set_option autoImplicit false

namespace Vernacular

open Token (enclosed commaSep stops)

def Binder.mapType (f : Term → Term) : Binder → Binder
  | .mk x ty implicit => .mk x (ty.map f) implicit

def Arm.map (f : Pattern → Pattern) (g : Term → Term) : Arm → Arm
  | .mk ps t => .mk (ps.map f) (g t)

namespace Term

mutual

/-- What can be read back of a term: parentheses are left out, applications are flat, and names are
variables. -/
def skeleton : Term → Term
  | .app f ts => f.skeleton.apply (skeletonAll ts)
  | .lam bs t => .lam (skeletonBinders bs) t.skeleton
  | .fix x bs ty t => .fix x (skeletonBinders bs) (skeletonType ty) t.skeleton
  | .caseOf ts as => .caseOf (skeletonAll ts) (skeletonArms as)
  | .parens t => t.skeleton
  | .pi bs t => .pi (skeletonBinders bs) t.skeleton
  | .arrow t u => .arrow t.skeleton u.skeleton
  | .ite c t u => .ite c.skeleton t.skeleton u.skeleton
  | .letIn x bs ty v t => .letIn x (skeletonBinders bs) (skeletonType ty) v.skeleton t.skeleton
  | .ascribed t u => .ascribed t.skeleton u.skeleton
  | .sort s => .var s
  | t => t

def skeletonAll : List Term → List Term
  | [] => []
  | t :: ts => t.skeleton :: skeletonAll ts

def skeletonType : Option Term → Option Term
  | none => none
  | some t => some t.skeleton

def skeletonBinders : List Binder → List Binder
  | [] => []
  | .mk x ty implicit :: bs => .mk x (skeletonType ty) implicit :: skeletonBinders bs

def skeletonArms : List Arm → List Arm
  | [] => []
  | .mk ps t :: as => .mk (ps.map Pattern.skeleton) t.skeleton :: skeletonArms as

end

theorem skeletonAll_eq (ts : List Term) : skeletonAll ts = ts.map skeleton := by
  induction ts with
  | nil => rfl
  | cons t ts ih => rw [skeletonAll, ih, List.map_cons]

theorem skeletonType_eq (ty : Option Term) : skeletonType ty = ty.map skeleton := by
  cases ty <;> rfl

theorem skeletonBinders_eq (bs : List Binder) :
    skeletonBinders bs = bs.map (Binder.mapType skeleton) := by
  induction bs with
  | nil => rfl
  | cons b bs ih =>
    obtain ⟨x, ty, implicit⟩ := b
    rw [skeletonBinders, ih, skeletonType_eq, List.map_cons, Binder.mapType]

theorem skeletonArms_eq (as : List Arm) :
    skeletonArms as = as.map (Arm.map Pattern.skeleton skeleton) := by
  induction as with
  | nil => rfl
  | cons a as ih =>
    obtain ⟨ps, t⟩ := a
    rw [skeletonArms, ih, List.map_cons, Arm.map]

/-- Whether a term extends to the right as far as it can, when it stands without parentheses. -/
def isOpen : Term → Bool
  | .lam _ _ | .fix _ _ _ _ | .ite _ _ _ | .letIn _ _ _ _ _ | .ascribed _ _ => true
  | _ => false

def ClosedDomain : Term → Prop
  | .arrow t _ => t.isOpen = false
  | _ => True

/-- No function type inside a term has an open domain. -/
def ClosedDomains (t : Term) : Prop :=
  t.Every ClosedDomain

structure Readable (t : Term) : Prop where
  legible : t.Legible
  closed : t.ClosedDomains

theorem Readable.child {t u : Term} (h : t.Readable) (hu : u ∈ t.children) : u.Readable :=
  ⟨(every_iff.1 h.legible).2 u hu, (every_iff.1 h.closed).2 u hu⟩

theorem apply_nil (t : Term) : t.apply [] = t := by
  cases t <;> rfl

theorem tokensArgs_eq (ts : List Term) :
    tokensArgs ts = ts.flatMap fun t => enclosed t.isAtom t.tokens := by
  induction ts with
  | nil => rfl
  | cons t ts ih => rw [tokensArgs, ih, List.flatMap_cons]

end Term

def Binder.tokens : Binder → List Token
  | .mk x none false => [.name x]
  | .mk x ty false =>
    .symbol .lparen :: .name x :: (Term.tokensType ty ++ [.symbol .rparen])
  | .mk x ty true =>
    .symbol .lbrace :: .name x :: (Term.tokensType ty ++ [.symbol .rbrace])

def Arm.tokens : Arm → List Token
  | .mk ps t => .symbol .bar :: (commaSep (ps.map Pattern.tokens) ++ .symbol .fatArrow :: t.tokens)

namespace Term

theorem tokensBinders_eq (bs : List Binder) : tokensBinders bs = bs.flatMap Binder.tokens := by
  induction bs with
  | nil => rfl
  | cons b bs ih =>
    rcases b with ⟨x, _ | t, _ | _⟩ <;> simp [tokensBinders, Binder.tokens, ih]

theorem tokensArms_eq (as : List Arm) : tokensArms as = as.flatMap Arm.tokens := by
  induction as with
  | nil => rfl
  | cons a as ih =>
    obtain ⟨ps, t⟩ := a
    simp [tokensArms, Arm.tokens, ih]

end Term

namespace Reader

/-- A reader gives a term back, from its tokens and whatever follows. -/
def Reads (read : Reader Term) (t : Term) : Prop :=
  ∀ rest, stops rest → read (t.tokens ++ rest) = some (t.skeleton, rest)

section Parts

variable {n : Nat} {read : Reader Term}

theorem atom_stops {rest : List Token} (h : stops rest) : atom read rest = none := by
  rcases Token.stops_cases h with rfl | ⟨k, ts, rfl, closes⟩
  · rfl
  · cases k <;> first | rfl | cases closes

theorem optionalType_tokens {ty : Option Term} (h : ∀ t ∈ ty, Reads read t) {k : Symbol}
    (closes : k.closes) (rest : List Token) :
    optionalType read (Term.tokensType ty ++ .symbol k :: rest) =
      some (ty.map Term.skeleton, .symbol k :: rest) := by
  cases ty with
  | none => cases k <;> first | rfl | cases closes
  | some t =>
    have type := h t rfl (.symbol k :: rest) closes
    simp [Term.tokensType, optionalType, type]

theorem binder_tokens {b : Binder} (h : ∀ t ∈ b.type, Reads read t) (rest : List Token) :
    binder read (b.tokens ++ rest) = some (b.mapType Term.skeleton, rest) := by
  obtain ⟨x, ty, implicit⟩ := b
  have type : ∀ t ∈ ty, Reads read t := h
  have parens := before_symbol (optionalType_tokens type (k := .rparen) rfl rest)
  have braces := before_symbol (optionalType_tokens type (k := .rbrace) rfl rest)
  cases implicit with
  | true => cases ty <;> simpa [Binder.tokens, binder, Binder.mapType] using braces
  | false =>
    cases ty with
    | none => rfl
    | some t => simpa [Binder.tokens, binder, Binder.mapType] using parens

theorem many_binder {bs : List Binder} (h : ∀ b ∈ bs, ∀ t ∈ b.type, Reads read t)
    (enough : bs.length ≤ n) (rest : List Token) (stop : binder read rest = none) :
    many (binder read) n (Term.tokensBinders bs ++ rest) =
      some (bs.map (Binder.mapType Term.skeleton), rest) := by
  rw [Term.tokensBinders_eq]
  exact many_flatMap (fun _ => True) (fun b hb ts _ => binder_tokens (h b hb) ts)
    (fun _ _ _ => trivial) trivial stop enough

/-- A telescope ends in front of a type or a definition. -/
theorem binder_tokensType (read : Reader Term) (ty : Option Term) (rest : List Token) :
    binder read (Term.tokensType ty ++ .symbol .assign :: rest) = none := by
  cases ty <;> rfl

/-- The front of a definition, after its name: its binders, and then its type. -/
theorem header_tokens {bs : List Binder} {ty : Option Term}
    (types : ∀ b ∈ bs, ∀ t ∈ b.type, Reads read t) (type : ∀ t ∈ ty, Reads read t)
    (enough : bs.length ≤ n) (rest : List Token) :
    many (binder read) n
        (Term.tokensBinders bs ++ (Term.tokensType ty ++ .symbol .assign :: rest)) =
      some (bs.map (Binder.mapType Term.skeleton),
        Term.tokensType ty ++ .symbol .assign :: rest) ∧
    before .assign (optionalType read) (Term.tokensType ty ++ .symbol .assign :: rest) =
      some (ty.map Term.skeleton, rest) :=
  ⟨many_binder types enough _ (binder_tokensType read ty rest),
    before_symbol (optionalType_tokens type rfl rest)⟩

theorem arm_tokens {a : Arm} (patterns : ∀ p ∈ a.patterns, p.Legible ∧ sizeOf p ≤ n)
    (enough : a.patterns.length ≤ n) (body : Reads read a.body) (rest : List Token)
    (apart : stops rest) :
    arm read n (a.tokens ++ rest) = some (a.map Pattern.skeleton Term.skeleton, rest) := by
  obtain ⟨ps, t⟩ := a
  have none : ∀ ts, pattern n (.symbol .fatArrow :: ts) = none := by
    intro ts
    cases n <;> rfl
  have list : commas (pattern n) n
      (commaSep (ps.map Pattern.tokens) ++ .symbol .fatArrow :: (t.tokens ++ rest)) = _ :=
    commas_commaSep (fun p hp ts => pattern_tokens n (patterns p hp).1 (patterns p hp).2 ts) rfl
      (by decide) none enough _
  have inner : read (t.tokens ++ rest) = some (t.skeleton, rest) := body rest apart
  rw [Arm.tokens, List.cons_append, arm, after_symbol, List.append_assoc, List.cons_append,
    before_symbol list]
  simp [inner, Arm.map, Arm.patterns]

theorem many_arm {as : List Arm}
    (patterns : ∀ a ∈ as, ∀ p ∈ a.patterns, p.Legible ∧ sizeOf p ≤ n)
    (lengths : ∀ a ∈ as, a.patterns.length ≤ n) (bodies : ∀ a ∈ as, Reads read a.body)
    (enough : as.length ≤ n) (rest : List Token) :
    before .kwEnd (many (arm read n) n) (Term.tokensArms as ++ .symbol .kwEnd :: rest) =
      some (as.map (Arm.map Pattern.skeleton Term.skeleton), rest) := by
  have starts : ∀ a ∈ as, ∀ ts, stops (a.tokens ++ ts) := by
    rintro ⟨ps, t⟩ _ ts
    rfl
  rw [Term.tokensArms_eq]
  exact before_symbol (many_flatMap (fun ts => stops ts)
    (fun a ha => arm_tokens (patterns a ha) (lengths a ha) (bodies a ha)) starts rfl rfl enough)

end Parts

section Step

variable {n : Nat}

theorem atom_of_isAtom {read : Reader Term} {t : Term} (legible : t.Legible) (atomic : t.isAtom)
    (parts : ∀ u ∈ t.children, Reads read u) (rest : List Token) :
    atom read (t.tokens ++ rest) = some (t.skeleton, rest) := by
  cases t with
  | num m =>
    obtain ⟨m, rfl⟩ := Option.isSome_iff_exists.1 (Term.every_iff.1 legible).1
    rfl
  | parens u =>
    have closed := before_symbol (List.forall_mem_singleton.1 parts (.symbol .rparen :: rest) rfl)
    simpa [Term.tokens, atom, Term.skeleton] using closed
  | _ => first | rfl | cases atomic

/-- A term in parentheses is an atom, and so is one that needs none. -/
theorem atom_enclosed (inner : ∀ u : Term, u.Readable → sizeOf u ≤ n → Reads (term n) u) {t : Term}
    (h : t.Readable) (size : sizeOf t ≤ n) (rest : List Token) :
    atom (term n) (enclosed t.isAtom t.tokens ++ rest) = some (t.skeleton, rest) := by
  cases atomic : t.isAtom with
  | true =>
    refine atom_of_isAtom h.legible atomic (fun u hu => inner u (h.child hu) ?_) rest
    have smaller := Term.sizeOf_child hu
    omega
  | false =>
    have closed := before_symbol (inner t h size (.symbol .rparen :: rest) rfl)
    simpa [enclosed, atom] using closed

/-- An operand starts with no word of the other forms. -/
theorem step_of_operand {read : Reader Term} {t : Term} {ts rest : List Token}
    (h : operand read n ts = some (t, rest)) : step read n ts = continued read t rest := by
  unfold step
  split
  · cases h
  · cases h
  · cases h
  · cases h
  · cases h
  · rw [h]
    rfl

theorem operand_of_atom {read : Reader Term} {t f : Term} {us : List Term}
    {ts args rest : List Token} (first : atom read ts = some (f, args))
    (others : many (atom read) n args = some (us, rest)) (whole : f.apply us = t) :
    operand read n ts = some (t, rest) := by
  unfold operand
  split
  · cases first
  · simp [first, others, whole]

theorem continued_stops {read : Reader Term} {t : Term} {rest : List Token} (h : stops rest) :
    continued read t rest = some (t, rest) := by
  rcases Token.stops_cases h with rfl | ⟨k, ts, rfl, closes⟩
  · rfl
  · cases k <;> first | rfl | cases closes

section Operand

variable (inner : ∀ u : Term, u.Readable → sizeOf u ≤ n → Reads (term n) u)
include inner

theorem operand_enclosed {t : Term} (h : t.Readable) (size : sizeOf t ≤ n) (rest : List Token)
    (single : atom (term n) rest = none) :
    operand (term n) n (enclosed t.isAtom t.tokens ++ rest) = some (t.skeleton, rest) :=
  operand_of_atom (atom_enclosed inner h size rest) (many_none single n) (Term.apply_nil _)

theorem operand_app {f : Term} {ts : List Term} (h : (Term.app f ts).Readable)
    (size : sizeOf (Term.app f ts) ≤ n + 1) (rest : List Token)
    (single : atom (term n) rest = none) :
    operand (term n) n ((Term.app f ts).tokens ++ rest) =
      some ((Term.app f ts).skeleton, rest) := by
  obtain ⟨head, args⟩ := List.forall_mem_cons.1 fun u (hu : u ∈ (Term.app f ts).children) =>
    (⟨h.child hu, Term.sizeOf_child hu⟩ : u.Readable ∧ sizeOf u < sizeOf (Term.app f ts))
  have small : sizeOf ts ≤ n := by simp at size; omega
  have first := atom_enclosed inner head.1 (by omega) (Term.tokensArgs ts ++ rest)
  have others : many (atom (term n)) n (Term.tokensArgs ts ++ rest) =
      some (ts.map Term.skeleton, rest) := by
    rw [Term.tokensArgs_eq]
    exact many_flatMap (fun _ => True)
      (fun u hu ts _ => atom_enclosed inner (args u hu).1 (by have := (args u hu).2; omega) ts)
      (fun _ _ _ => trivial) trivial single (Nat.le_trans (length_le_sizeOf ts) small)
  rw [Term.tokens, List.append_assoc]
  exact operand_of_atom first others (by rw [Term.skeleton, Term.skeletonAll_eq])

theorem operand_caseOf {us : List Term} {as : List Arm} (h : (Term.caseOf us as).Readable)
    (size : sizeOf (Term.caseOf us as) ≤ n + 1) (rest : List Token) :
    operand (term n) n ((Term.caseOf us as).tokens ++ rest) =
      some ((Term.caseOf us as).skeleton, rest) := by
  obtain ⟨scrutinees, bodies⟩ := List.forall_mem_append.1
    fun u (hu : u ∈ (Term.caseOf us as).children) =>
      inner u (h.child hu) (by have := Term.sizeOf_child hu; omega)
  have small : sizeOf us ≤ n ∧ sizeOf as ≤ n := by simp at size; omega
  have none : ∀ ts, term n (.symbol .kwWith :: ts) = none := by
    intro ts
    cases n <;> rfl
  have patterns : ∀ a ∈ as, a.patterns.length ≤ n ∧
      ∀ p ∈ a.patterns, p.Legible ∧ sizeOf p ≤ n := by
    rintro ⟨ps, t⟩ ha
    have node := (Term.every_iff.1 h.legible).1 _ ha
    have inside := List.sizeOf_lt_of_mem ha
    have short := length_le_sizeOf ps
    simp only [Arm.mk.sizeOf_spec] at inside
    refine ⟨?_, fun p hp => ⟨node p hp, ?_⟩⟩
    · change ps.length ≤ n
      omega
    · have deeper := List.sizeOf_lt_of_mem hp
      change sizeOf p < sizeOf ps at deeper
      omega
  have list := commas_commaSep scrutinees (k := .kwWith) rfl (by decide) none
    (Nat.le_trans (length_le_sizeOf us) small.1) (Term.tokensArms as ++ .symbol .kwEnd :: rest)
  have arms := many_arm (fun a ha => (patterns a ha).2) (fun a ha => (patterns a ha).1)
    (List.forall_mem_map.1 bodies) (Nat.le_trans (length_le_sizeOf as) small.2) rest
  simp only [Term.tokens, Term.tokensAll_eq, List.cons_append, List.append_assoc, List.nil_append]
  rw [operand, before_symbol list]
  simp [arms, Term.skeleton, Term.skeletonAll_eq, Term.skeletonArms_eq]

theorem operand_domain {t : Term} (h : t.Readable) (size : sizeOf t ≤ n)
    (closed : t.isOpen = false) (rest : List Token) (single : atom (term n) rest = none) :
    operand (term n) n (enclosed t.isDomain t.tokens ++ rest) = some (t.skeleton, rest) := by
  have enclosed := operand_enclosed inner h size rest single
  cases t with
  | missing => cases (Term.every_iff.1 h.legible).1
  | foreign kind => cases (Term.every_iff.1 h.legible).1
  | app f ts => exact operand_app inner h (by omega) rest single
  | caseOf us as => exact operand_caseOf inner h (by omega) rest
  | _ => first | exact enclosed | cases closed

end Operand

/-- Every readable term is given back by a reader with enough fuel. -/
theorem term_tokens (n : Nat) {t : Term} (h : t.Readable) (size : sizeOf t ≤ n) :
    Reads (term n) t := by
  induction n generalizing t with
  | zero => cases t <;> simp at size
  | succ n ih =>
    have inner : ∀ u : Term, u.Readable → sizeOf u ≤ n → Reads (term n) u :=
      fun u hu size => ih hu size
    have parts : ∀ u ∈ t.children, Reads (term n) u := fun u hu =>
      inner u (h.child hu) (by have := Term.sizeOf_child hu; omega)
    intro rest apart
    have single : atom (term n) rest = none := atom_stops apart
    change step (term n) n (t.tokens ++ rest) = _
    cases t with
    | missing => cases (Term.every_iff.1 h.legible).1
    | foreign kind => cases (Term.every_iff.1 h.legible).1
    | app f ts => rw [step_of_operand (operand_app inner h size rest single), continued_stops apart]
    | caseOf us as =>
      rw [step_of_operand (operand_caseOf inner h size rest), continued_stops apart]
    | lam bs t =>
      obtain ⟨types, body⟩ := List.forall_mem_append.1 parts
      have short := length_le_sizeOf bs
      have binders := many_binder (n := n) (Term.forall_binder_types.1 types)
        (by simp at size; omega) (.symbol .fatArrow :: (t.tokens ++ rest)) rfl
      have read := List.forall_mem_singleton.1 body rest apart
      simp only [Term.tokens, List.cons_append, List.append_assoc, step, before_symbol binders]
      simp [read, Term.skeleton, Term.skeletonBinders_eq]
    | pi bs t =>
      obtain ⟨types, body⟩ := List.forall_mem_append.1 parts
      have short := length_le_sizeOf bs
      have binders := many_binder (n := n) (Term.forall_binder_types.1 types)
        (by simp at size; omega) (.symbol .comma :: (t.tokens ++ rest)) rfl
      have read := List.forall_mem_singleton.1 body rest apart
      simp only [Term.tokens, List.cons_append, List.append_assoc, step, before_symbol binders]
      simp [read, Term.skeleton, Term.skeletonBinders_eq]
    | fix x bs ty t =>
      obtain ⟨types, others⟩ := List.forall_mem_append.1 parts
      obtain ⟨type, body⟩ := List.forall_mem_append.1 others
      have short := length_le_sizeOf bs
      obtain ⟨binders, typed⟩ := header_tokens (n := n) (Term.forall_binder_types.1 types)
        (Term.forall_optional_type.1 type) (by simp at size; omega) (t.tokens ++ rest)
      have read := List.forall_mem_singleton.1 body rest apart
      simp only [Term.tokens, List.cons_append, List.append_assoc, step, binders]
      simp [typed, read, Term.skeleton, Term.skeletonBinders_eq, Term.skeletonType_eq]
    | letIn x bs ty v t =>
      obtain ⟨types, others⟩ := List.forall_mem_append.1 parts
      obtain ⟨type, both⟩ := List.forall_mem_append.1 others
      obtain ⟨value, body⟩ := List.forall_mem_cons.1 both
      have short := length_le_sizeOf bs
      obtain ⟨binders, typed⟩ := header_tokens (n := n) (Term.forall_binder_types.1 types)
        (Term.forall_optional_type.1 type) (by simp at size; omega)
        (v.tokens ++ .symbol .kwIn :: (t.tokens ++ rest))
      have bound := before_symbol (value (.symbol .kwIn :: (t.tokens ++ rest)) rfl)
      have read := List.forall_mem_singleton.1 body rest apart
      simp only [Term.tokens, List.cons_append, List.append_assoc, step, binders]
      simp [typed, bound, read, Term.skeleton, Term.skeletonBinders_eq, Term.skeletonType_eq]
    | ite c t u =>
      obtain ⟨cond, branches⟩ := List.forall_mem_cons.1 parts
      obtain ⟨yes, no⟩ := List.forall_mem_cons.1 branches
      have first := before_symbol
        (cond (.symbol .kwThen :: (t.tokens ++ .symbol .kwElse :: (u.tokens ++ rest))) rfl)
      have second := before_symbol (yes (.symbol .kwElse :: (u.tokens ++ rest)) rfl)
      have third := List.forall_mem_singleton.1 no rest apart
      simp only [Term.tokens, List.cons_append, List.append_assoc, step, first]
      simp [second, third, Term.skeleton]
    | ascribed t u =>
      have child : t ∈ (Term.ascribed t u).children := List.mem_cons_self ..
      have smaller := Term.sizeOf_child child
      have type := (List.forall_mem_cons.1 parts).2 u (List.mem_cons_self ..) rest apart
      have front := operand_enclosed inner (h.child child) (by omega)
        (.symbol .colon :: (u.tokens ++ rest)) rfl
      rw [Term.tokens, List.append_assoc, List.cons_append, step_of_operand front]
      simp [continued, type, Term.skeleton]
    | arrow t u =>
      have child : t ∈ (Term.arrow t u).children := List.mem_cons_self ..
      have smaller := Term.sizeOf_child child
      have cod := (List.forall_mem_cons.1 parts).2 u (List.mem_cons_self ..) rest apart
      have front := operand_domain inner (h.child child) (by omega) (Term.every_iff.1 h.closed).1
        (.symbol .arrow :: (u.tokens ++ rest)) rfl
      rw [Term.tokens, List.append_assoc, List.cons_append, step_of_operand front]
      simp [continued, cod, Term.skeleton]
    | _ =>
      have whole := operand_of_atom (n := n) (atom_of_isAtom h.legible rfl parts rest)
        (many_none single n) (Term.apply_nil _)
      rw [step_of_operand whole, continued_stops apart]

end Step

end Reader

end Vernacular
