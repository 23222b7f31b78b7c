import Vernacular.Proofs.TermTokens

set_option autoImplicit false

namespace Vernacular

open Token (enclosed commaSep)

namespace Pattern

/-- A name in front of patterns. Without any, it may be a variable or a constructor. -/
def applied (c : String) : List Pattern → Pattern
  | [] => .var c
  | p :: ps => .con c (p :: ps)

mutual

def skeleton : Pattern → Pattern
  | .named p x => .named p.skeleton x
  | .con c ps => applied c (skeletonAll ps)
  | p => p

def skeletonAll : List Pattern → List Pattern
  | [] => []
  | p :: ps => p.skeleton :: skeletonAll ps

end

theorem skeletonAll_eq (ps : List Pattern) : skeletonAll ps = ps.map skeleton := by
  induction ps with
  | nil => rfl
  | cons p ps ih => rw [skeletonAll, ih, List.map_cons]

theorem legibleAll_iff {ps : List Pattern} : LegibleAll ps ↔ ∀ p ∈ ps, p.Legible := by
  induction ps with
  | nil => simp [LegibleAll]
  | cons p ps ih => rw [LegibleAll, ih, List.forall_mem_cons]

theorem tokensArgs_eq (ps : List Pattern) :
    tokensArgs ps = ps.flatMap fun p => enclosed p.isAtom p.tokens := by
  induction ps with
  | nil => rfl
  | cons p ps ih => rw [tokensArgs, ih, List.flatMap_cons]

end Pattern

/-- The symbols in front of which a term or a pattern ends. -/
def Symbol.closes : Symbol → Bool
  | .rparen | .rbrace | .comma | .assign | .bar | .fatArrow => true
  | .kwThen | .kwElse | .kwIn | .kwWith | .kwEnd => true
  | _ => false

/-- Whether a term or a pattern in front of some tokens ends there. -/
def Token.stops : List Token → Bool
  | [] => true
  | .symbol k :: _ => k.closes
  | _ => false

theorem Token.stops_cases {rest : List Token} (h : stops rest) :
    rest = [] ∨ ∃ k ts, rest = .symbol k :: ts ∧ k.closes := by
  rcases rest with _ | ⟨k | x | m | s, ts⟩
  · exact .inl rfl
  · exact .inr ⟨k, ts, rfl, h⟩
  · cases h
  · cases h
  · cases h

abbrev Reader (α : Type) := List Token → Option (α × List Token)

namespace Reader

section Combinators

variable {α β : Type}

def expect (k : Symbol) : List Token → Option (List Token)
  | .symbol j :: ts => if j = k then some ts else none
  | _ => none

def after (k : Symbol) (read : Reader α) : Reader α :=
  fun ts => (expect k ts).bind read

def before (k : Symbol) (read : Reader α) : Reader α := fun ts => do
  let (a, ts) ← read ts
  let ts ← expect k ts
  return (a, ts)

def many (read : Reader α) : Nat → Reader (List α)
  | 0, ts => some ([], ts)
  | n + 1, ts =>
    match read ts with
    | none => some ([], ts)
    | some (a, ts) => (many read n ts).map fun p => (a :: p.1, p.2)

def commas (read : Reader α) (n : Nat) : Reader (List α) := fun ts =>
  match read ts with
  | none => some ([], ts)
  | some (a, ts) => (many (after .comma read) n ts).map fun p => (a :: p.1, p.2)

end Combinators

def patternAtom (pattern : Reader Pattern) : Reader Pattern
  | .name x :: ts => some (.var x, ts)
  | .num n :: ts => some (.num (some n), ts)
  | .str s :: ts => some (.str s, ts)
  | .symbol .underscore :: ts => some (.wild, ts)
  | .symbol .lparen :: ts => before .rparen pattern ts
  | _ => none

def aliased (p : Pattern) : Reader Pattern
  | .symbol .kwAs :: .name x :: ts => some (.named p x, ts)
  | ts => some (p, ts)

def pattern : Nat → Reader Pattern
  | 0, _ => none
  | n + 1, .name c :: ts => do
    let (ps, ts) ← many (patternAtom (pattern n)) n ts
    aliased (.applied c ps) ts
  | n + 1, ts => do
    let (p, ts) ← patternAtom (pattern n) ts
    aliased p ts

def atom (term : Reader Term) : Reader Term
  | .name x :: ts => some (.var x, ts)
  | .num n :: ts => some (.num (some n), ts)
  | .str s :: ts => some (.str s, ts)
  | .symbol .underscore :: ts => some (.hole, ts)
  | .symbol .lparen :: ts => before .rparen term ts
  | _ => none

def optionalType (term : Reader Term) : Reader (Option Term)
  | .symbol .colon :: ts => (term ts).map fun p => (some p.1, p.2)
  | ts => some (none, ts)

def binder (term : Reader Term) : Reader Binder
  | .name x :: ts => some (.mk x none false, ts)
  | .symbol .lparen :: .name x :: ts =>
    (before .rparen (optionalType term) ts).map fun p => (.mk x p.1 false, p.2)
  | .symbol .lbrace :: .name x :: ts =>
    (before .rbrace (optionalType term) ts).map fun p => (.mk x p.1 true, p.2)
  | _ => none

def arm (term : Reader Term) (n : Nat) : Reader Arm := after .bar fun ts => do
  let (ps, ts) ← before .fatArrow (commas (pattern n) n) ts
  let (t, ts) ← term ts
  return (.mk ps t, ts)

def operand (term : Reader Term) (n : Nat) : Reader Term
  | .symbol .kwMatch :: ts => do
    let (us, ts) ← before .kwWith (commas term n) ts
    let (as, ts) ← before .kwEnd (many (arm term n) n) ts
    return (.caseOf us as, ts)
  | ts => do
    let (f, ts) ← atom term ts
    let (us, ts) ← many (atom term) n ts
    return (f.apply us, ts)

def continued (term : Reader Term) (t : Term) : Reader Term
  | .symbol .arrow :: ts => (term ts).map fun p => (.arrow t p.1, p.2)
  | .symbol .colon :: ts => (term ts).map fun p => (.ascribed t p.1, p.2)
  | ts => some (t, ts)

/-- Reads a term, with a reader for the terms inside it. -/
def step (term : Reader Term) (n : Nat) : Reader Term
  | .symbol .kwFun :: ts => do
    let (bs, ts) ← before .fatArrow (many (binder term) n) ts
    let (t, ts) ← term ts
    return (.lam bs t, ts)
  | .symbol .kwForall :: ts => do
    let (bs, ts) ← before .comma (many (binder term) n) ts
    let (t, ts) ← term ts
    return (.pi bs t, ts)
  | .symbol .kwFix :: .name x :: ts => do
    let (bs, ts) ← many (binder term) n ts
    let (ty, ts) ← before .assign (optionalType term) ts
    let (t, ts) ← term ts
    return (.fix x bs ty t, ts)
  | .symbol .kwLet :: .name x :: ts => do
    let (bs, ts) ← many (binder term) n ts
    let (ty, ts) ← before .assign (optionalType term) ts
    let (v, ts) ← before .kwIn term ts
    let (t, ts) ← term ts
    return (.letIn x bs ty v t, ts)
  | .symbol .kwIf :: ts => do
    let (c, ts) ← before .kwThen term ts
    let (t, ts) ← before .kwElse term ts
    let (u, ts) ← term ts
    return (.ite c t u, ts)
  | ts => do
    let (t, ts) ← operand term n ts
    continued term t ts

def term : Nat → Reader Term
  | 0 => fun _ => none
  | n + 1 => step (term n) n

section Lemmas

variable {α β : Type} {read : Reader α} {k : Symbol} {ts rest : List Token}

theorem after_symbol : after k read (.symbol k :: ts) = read ts := by
  simp [after, expect]

theorem before_symbol {a : α} (h : read ts = some (a, .symbol k :: rest)) :
    before k read ts = some (a, rest) := by
  simp [before, h, expect]

theorem many_none (h : read rest = none) (n : Nat) : many read n rest = some ([], rest) := by
  cases n with
  | zero => rfl
  | succ n => simp [many, h]

/-- Items in a row are read one by one, if each can be read in front of the next one and in front
of the rest, and nothing can be read off the rest. -/
theorem many_flatMap (ok : List Token → Prop) {tokens : β → List Token} {value : β → α}
    {xs : List β} (each : ∀ x ∈ xs, ∀ ts, ok ts → read (tokens x ++ ts) = some (value x, ts))
    (next : ∀ x ∈ xs, ∀ ts, ok (tokens x ++ ts)) (last : ok rest) (stop : read rest = none)
    {n : Nat} (enough : xs.length ≤ n) :
    many read n (xs.flatMap tokens ++ rest) = some (xs.map value, rest) := by
  induction xs generalizing n with
  | nil => exact many_none stop n
  | cons x xs ih =>
    obtain ⟨m, rfl⟩ : ∃ m, n = m + 1 := ⟨n - 1, by simp at enough; omega⟩
    obtain ⟨first, others⟩ := List.forall_mem_cons.1 each
    obtain ⟨_, starts⟩ := List.forall_mem_cons.1 next
    have apart : ok (xs.flatMap tokens ++ rest) := by
      cases xs with
      | nil => exact last
      | cons y ys =>
        rw [List.flatMap_cons, List.append_assoc]
        exact starts y (List.mem_cons_self ..) _
    rw [List.flatMap_cons, List.append_assoc, many, first _ apart]
    have later := ih others starts (n := m) (by simpa using enough)
    simp [later]

theorem commas_commaSep {tokens : β → List Token} {value : β → α} {xs : List β}
    (each : ∀ x ∈ xs, ∀ ts, Token.stops ts → read (tokens x ++ ts) = some (value x, ts))
    (closes : k.closes) (other : k ≠ .comma) (stop : ∀ ts, read (.symbol k :: ts) = none) {n : Nat}
    (enough : xs.length ≤ n) (rest : List Token) :
    commas read n (commaSep (xs.map tokens) ++ .symbol k :: rest) =
      some (xs.map value, .symbol k :: rest) := by
  cases xs with
  | nil => simp [commas, commaSep, stop]
  | cons x xs =>
    obtain ⟨first, others⟩ := List.forall_mem_cons.1 each
    have later : many (after .comma read) n
        (xs.flatMap (fun x => .symbol .comma :: tokens x) ++ .symbol k :: rest) =
          some (xs.map value, .symbol k :: rest) := by
      have last : Token.stops (.symbol k :: rest) := closes
      refine many_flatMap (fun ts => Token.stops ts) (fun y hy ts apart => ?_)
        (fun _ _ _ => rfl) last ?_ (by simp at enough; omega)
      · rw [List.cons_append, after_symbol]
        exact others y hy ts apart
      · simp [after, expect, other]
    have apart : Token.stops (xs.flatMap (fun x => .symbol .comma :: tokens x) ++
        .symbol k :: rest) := by
      cases xs with
      | nil => exact closes
      | cons y ys => rfl
    rw [List.map_cons, commaSep, List.append_assoc, List.flatMap_map, commas, first _ apart]
    simp [later]

end Lemmas

theorem length_le_sizeOf {α : Type} [SizeOf α] (xs : List α) : xs.length ≤ sizeOf xs := by
  induction xs with
  | nil => simp
  | cons x xs ih => simp; omega

section Patterns

variable {p : Pattern} {rest : List Token} {n : Nat}

theorem patternAtom_stops (read : Reader Pattern) (h : Token.stops rest) :
    patternAtom read rest = none := by
  rcases Token.stops_cases h with rfl | ⟨k, ts, rfl, closes⟩
  · rfl
  · cases k <;> first | rfl | cases closes

theorem aliased_stops (h : Token.stops rest) : aliased p rest = some (p, rest) := by
  rcases Token.stops_cases h with rfl | ⟨k, ts, rfl, closes⟩
  · rfl
  · cases k <;> first | rfl | cases closes

/-- Behind an atom there may be an alias. -/
theorem pattern_of_atom {ts : List Token}
    (first : patternAtom (pattern n) ts = some (p, rest))
    (single : patternAtom (pattern n) rest = none) : pattern (n + 1) ts = aliased p rest := by
  rcases ts with _ | ⟨k | x | m | s, ts⟩
  · cases first
  · rw [pattern, first]
    · rfl
    · simp
  · cases first
    rw [pattern, many_none single]
    rfl
  · cases first
    rfl
  · cases first
    rfl

/-- A pattern in parentheses is an atom, and so is one that needs none. -/
theorem patternAtom_enclosed (h : p.Legible) (size : sizeOf p ≤ n)
    (inner : ∀ q : Pattern, q.Legible → sizeOf q ≤ n → ∀ rest, Token.stops rest →
      pattern n (q.tokens ++ rest) = some (q.skeleton, rest)) (rest : List Token) :
    patternAtom (pattern n) (enclosed p.isAtom p.tokens ++ rest) = some (p.skeleton, rest) := by
  have closed : ∀ q : Pattern, q.Legible → sizeOf q ≤ n →
      patternAtom (pattern n) (enclosed false q.tokens ++ rest) = some (q.skeleton, rest) := by
    intro q hq size
    have read := inner q hq size (.symbol .rparen :: rest) rfl
    simpa [enclosed, patternAtom] using before_symbol read
  cases p with
  | missing => cases h
  | wild => rfl
  | var x => rfl
  | named p x => exact closed _ h size
  | con c ps =>
    cases ps with
    | nil => rfl
    | cons q qs => exact closed _ h size
  | num m =>
    obtain ⟨m, rfl⟩ := Option.isSome_iff_exists.1 h
    rfl
  | str s => rfl

theorem pattern_tokens (n : Nat) {p : Pattern} (h : p.Legible) (size : sizeOf p ≤ n)
    (rest : List Token) (apart : Token.stops rest) :
    pattern n (p.tokens ++ rest) = some (p.skeleton, rest) := by
  induction n generalizing p rest with
  | zero => cases p <;> simp at size
  | succ n ih =>
    have single : patternAtom (pattern n) rest = none := patternAtom_stops _ apart
    have inner := fun (q : Pattern) hq size rest => @ih q hq size rest
    cases p with
    | missing => cases h
    | wild => rw [pattern_of_atom rfl single, aliased_stops apart]; rfl
    | var x => rw [pattern_of_atom rfl single, aliased_stops apart]; rfl
    | num m =>
      obtain ⟨m, rfl⟩ := Option.isSome_iff_exists.1 h
      rw [pattern_of_atom rfl single, aliased_stops apart]; rfl
    | str s => rw [pattern_of_atom rfl single, aliased_stops apart]; rfl
    | named p x =>
      have first := patternAtom_enclosed h.1 (by simp at size; omega) inner
        (.symbol .kwAs :: .name x :: rest)
      rw [Pattern.tokens, List.append_assoc]
      exact pattern_of_atom first rfl
    | con c ps =>
      have legible := Pattern.legibleAll_iff.1 h.2
      have small : sizeOf ps ≤ n := by simp at size; omega
      have args : many (patternAtom (pattern n)) n (Pattern.tokensArgs ps ++ rest) =
          some (ps.map Pattern.skeleton, rest) := by
        rw [Pattern.tokensArgs_eq]
        refine many_flatMap (fun _ => True) (fun q hq ts _ => ?_) (fun _ _ _ => trivial) trivial
          single (Nat.le_trans (length_le_sizeOf ps) small)
        have inside := List.sizeOf_lt_of_mem hq
        exact patternAtom_enclosed (legible q hq) (by omega) inner ts
      rw [Pattern.tokens, List.cons_append, pattern, args]
      exact (aliased_stops apart).trans (by rw [Pattern.skeleton, Pattern.skeletonAll_eq])

end Patterns

end Reader

namespace Pattern

theorem isAtom_skeleton (p : Pattern) : p.skeleton.isAtom = p.isAtom := by
  cases p with
  | con c ps => cases ps <;> rfl
  | _ => rfl

theorem print_applied (c : String) (ps : List Pattern) :
    (applied c ps).print = c ++ printArgs ps := by
  cases ps with
  | nil => simp [applied, print, printArgs]
  | cons p ps => rfl

mutual

/-- What can be read back of a pattern is written as the pattern is. -/
theorem print_skeleton : ∀ p : Pattern, p.skeleton.print = p.print
  | .missing | .wild | .var _ | .num _ | .str _ => rfl
  | .named p x => by rw [skeleton, print, isAtom_skeleton, print_skeleton p, print]
  | .con c ps => by rw [skeleton, print_applied, printArgs_skeletonAll ps, print]

theorem printArgs_skeletonAll : ∀ ps : List Pattern, printArgs (skeletonAll ps) = printArgs ps
  | [] => rfl
  | p :: ps => by
    rw [skeletonAll, printArgs, isAtom_skeleton, print_skeleton p, printArgs_skeletonAll ps,
      printArgs]

end

/-- Legible patterns are written alike if and only if they are the same, up to which names without
arguments are variables and which are constructors. -/
theorem print_eq_iff (p q : Pattern) (hp : p.Legible) (hq : q.Legible) :
    p.print = q.print ↔ p.skeleton = q.skeleton := by
  constructor
  · intro same
    have left := scans_print hp
    rw [same] at left
    have tokens : p.tokens = q.tokens := left.unique (scans_print hq)
    have first := Reader.pattern_tokens (sizeOf p + sizeOf q) hp (by omega) [] rfl
    have second := Reader.pattern_tokens (sizeOf p + sizeOf q) hq (by omega) [] rfl
    rw [tokens] at first
    simpa using first.symm.trans second
  · intro same
    rw [← print_skeleton p, same, print_skeleton q]

def aliasedPair : Pattern :=
  .named (.con "pair" [.con "None" [], .str "x) as (y"]) "p'"

def respelledPair : Pattern :=
  .named (.con "pair" [.var "None", .str "x) as (y"]) "p'"

def pairOfAlias : Pattern :=
  .con "pair" [.con "None" [], .named (.str "x) as (y") "p'"]

theorem aliasedPair_written :
    aliasedPair.print = "(pair None \"x) as (y\") as p'" ∧
      aliasedPair.skeleton = respelledPair.skeleton ∧
      pairOfAlias.print ≠ aliasedPair.print := by
  have names : ∀ x ∈ ["pair", "None", "p'"], Identifier.Legible x := by decide
  have outside : aliasedPair.Legible := by simp [aliasedPair, Legible, LegibleAll, names]
  have respelled : respelledPair.Legible := by simp [respelledPair, Legible, LegibleAll, names]
  have inside : pairOfAlias.Legible := by simp [pairOfAlias, Legible, LegibleAll, names]
  refine ⟨rfl, (print_eq_iff _ _ outside respelled).1 rfl, fun same => ?_⟩
  have skeletons := (print_eq_iff _ _ inside outside).1 same
  simp [pairOfAlias, aliasedPair, skeleton, skeletonAll, applied] at skeletons

end Pattern

end Vernacular
