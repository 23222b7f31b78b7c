import Vernacular.Proofs.Subterms
import Vernacular.Proofs.Tokens

set_option autoImplicit false

namespace Vernacular

namespace Token

def commaSep : List (List Token) → List Token
  | [] => []
  | first :: others => first ++ others.flatMap (.symbol .comma :: ·)

theorem scans_nil : Scans "" [] :=
  fun _ _ => rfl

theorem scans_intercalate {α : Type} {print : α → String} {tokens : α → List Token} {xs : List α}
    (each : ∀ x ∈ xs, Scans (print x) (tokens x)) :
    Scans (", ".intercalate (xs.map print)) (commaSep (xs.map tokens)) := by
  induction xs with
  | nil => exact scans_nil
  | cons x xs ih =>
    obtain ⟨first, others⟩ := List.forall_mem_cons.1 each
    cases xs with
    | nil => simpa [commaSep] using first
    | cons y ys =>
      intro rest apart
      have later := ih others rest apart
      rw [List.map_cons] at later
      rw [List.map_cons, List.map_cons, String.intercalate_cons_cons]
      simp only [String.toList_append, List.append_assoc]
      rw [first _ rfl, scan_piece ", " .comma (by decide) rfl (.inl rfl), later]
      simp [commaSep]

end Token

open Token

namespace Pattern

mutual

def Legible : Pattern → Prop
  | .missing => False
  | .wild => True
  | .var x => Identifier.Legible x
  | .named p x => p.Legible ∧ Identifier.Legible x
  | .con c ps => Identifier.Legible c ∧ LegibleAll ps
  | .num n => n.isSome
  | .str s => '"' ∉ s.toList

def LegibleAll : List Pattern → Prop
  | [] => True
  | p :: ps => p.Legible ∧ LegibleAll ps

end

mutual

def tokens : Pattern → List Token
  | .missing => []
  | .wild => [.symbol .underscore]
  | .var x => [.name x]
  | .named p x => enclosed p.isAtom p.tokens ++ [.symbol .kwAs, .name x]
  | .con c ps => .name c :: tokensArgs ps
  | .num n => n.toList.map .num
  | .str s => [.str s]

def tokensArgs : List Pattern → List Token
  | [] => []
  | p :: ps => enclosed p.isAtom p.tokens ++ tokensArgs ps

end

theorem breaks_printArgs (ps : List Pattern) {rest : List Char} (apart : breaks rest) :
    breaks ((printArgs ps).toList ++ rest) := by
  cases ps with
  | nil => exact apart
  | cons p ps =>
    simp only [printArgs, String.toList_append, List.append_assoc]
    rfl

mutual

theorem scans_print : ∀ {p : Pattern}, p.Legible → Scans p.print p.tokens
  | .wild, _ => scans_underscore
  | .var _, h => h.scans
  | .named p x, h => by
    intro rest apart
    have inner := (scans_print h.1).parenthesized p.isAtom
    simp only [print, String.toList_append, List.append_assoc]
    rw [inner _ rfl, scan_piece " as " .kwAs (by decide) rfl (.inl rfl), h.2.scans rest apart]
    simp [tokens]
  | .con c ps, h => by
    intro rest apart
    simp only [print, String.toList_append, List.append_assoc]
    rw [h.1.scans _ (breaks_printArgs ps apart), scans_printArgs h.2 rest apart]
    simp [tokens]
  | .num (some n), _ => scans_decimal n
  | .str _, h => scans_str h

theorem scans_printArgs :
    ∀ {ps : List Pattern}, LegibleAll ps → Scans (printArgs ps) (tokensArgs ps)
  | [], _ => scans_nil
  | p :: ps, h => by
    intro rest apart
    have inner := (scans_print h.1).parenthesized p.isAtom
    simp only [printArgs, String.toList_append, List.append_assoc]
    change scan [] ((parenthesized p.isAtom p.print).toList ++ _) = _
    rw [inner _ (breaks_printArgs ps apart), scans_printArgs h.2 rest apart]
    simp [tokensArgs]

end

end Pattern

namespace Term

/-- The nodes whose own names, numbers and strings can be read back. -/
def LegibleNode : Term → Prop
  | .missing | .foreign _ => False
  | .var x | .sort x => Identifier.Legible x
  | .lam bs _ | .pi bs _ => ∀ b ∈ bs, Identifier.Legible b.name
  | .fix x bs _ _ | .letIn x bs _ _ _ =>
    Identifier.Legible x ∧ ∀ b ∈ bs, Identifier.Legible b.name
  | .caseOf _ as => ∀ a ∈ as, ∀ p ∈ a.patterns, p.Legible
  | .num n => n.isSome
  | .str s => '"' ∉ s.toList
  | _ => True

def Legible (t : Term) : Prop :=
  t.Every LegibleNode

mutual

def tokens : Term → List Token
  | .missing | .foreign _ => []
  | .var x | .sort x => [.name x]
  | .app f ts => enclosed f.isAtom f.tokens ++ tokensArgs ts
  | .lam bs t => .symbol .kwFun :: (tokensBinders bs ++ .symbol .fatArrow :: t.tokens)
  | .fix x bs ty t =>
    .symbol .kwFix :: .name x ::
      (tokensBinders bs ++ (tokensType ty ++ .symbol .assign :: t.tokens))
  | .caseOf ts as =>
    .symbol .kwMatch ::
      (commaSep (tokensAll ts) ++ .symbol .kwWith :: (tokensArms as ++ [.symbol .kwEnd]))
  | .num n => n.toList.map .num
  | .str s => [.str s]
  | .parens t => .symbol .lparen :: (t.tokens ++ [.symbol .rparen])
  | .pi bs t => .symbol .kwForall :: (tokensBinders bs ++ .symbol .comma :: t.tokens)
  | .arrow t u => enclosed t.isDomain t.tokens ++ .symbol .arrow :: u.tokens
  | .ite c t u =>
    .symbol .kwIf :: (c.tokens ++ .symbol .kwThen :: (t.tokens ++ .symbol .kwElse :: u.tokens))
  | .letIn x bs ty v t =>
    .symbol .kwLet :: .name x ::
      (tokensBinders bs ++
        (tokensType ty ++ .symbol .assign :: (v.tokens ++ .symbol .kwIn :: t.tokens)))
  | .ascribed t u => enclosed t.isAtom t.tokens ++ .symbol .colon :: u.tokens
  | .hole => [.symbol .underscore]

def tokensArgs : List Term → List Token
  | [] => []
  | t :: ts => enclosed t.isAtom t.tokens ++ tokensArgs ts

def tokensAll : List Term → List (List Token)
  | [] => []
  | t :: ts => t.tokens :: tokensAll ts

def tokensType : Option Term → List Token
  | none => []
  | some t => .symbol .colon :: t.tokens

def tokensBinders : List Binder → List Token
  | [] => []
  | .mk x none false :: bs => .name x :: tokensBinders bs
  | .mk x ty false :: bs =>
    .symbol .lparen :: .name x :: (tokensType ty ++ .symbol .rparen :: tokensBinders bs)
  | .mk x ty true :: bs =>
    .symbol .lbrace :: .name x :: (tokensType ty ++ .symbol .rbrace :: tokensBinders bs)

def tokensArms : List Arm → List Token
  | [] => []
  | .mk ps t :: as =>
    .symbol .bar ::
      (commaSep (ps.map Pattern.tokens) ++ .symbol .fatArrow :: (t.tokens ++ tokensArms as))

end

theorem tokensAll_eq (ts : List Term) : tokensAll ts = ts.map tokens := by
  induction ts with
  | nil => rfl
  | cons t ts ih => rw [tokensAll, ih, List.map_cons]

theorem printCommas_eq (ts : List Term) : printCommas ts = ", ".intercalate (ts.map print) := by
  induction ts with
  | nil => rfl
  | cons t ts ih =>
    cases ts with
    | nil => simp [printCommas]
    | cons u us =>
      rw [printCommas, ih]
      simp only [List.map_cons, String.intercalate_cons_cons]
      exact List.cons_ne_nil _ _

section Breaks

variable {rest : List Char}

theorem breaks_printArgs (ts : List Term) (apart : breaks rest) :
    breaks ((printArgs ts).toList ++ rest) := by
  cases ts with
  | nil => exact apart
  | cons t ts =>
    simp only [printArgs, String.toList_append, List.append_assoc]
    rfl

theorem breaks_printType (ty : Option Term) (apart : breaks rest) :
    breaks ((printType ty).toList ++ rest) := by
  cases ty with
  | none => exact apart
  | some t =>
    simp only [printType, String.toList_append, List.append_assoc]
    rfl

theorem breaks_printBinders (bs : List Binder) (apart : breaks rest) :
    breaks ((printBinders bs).toList ++ rest) := by
  rcases bs with _ | ⟨⟨x, _ | t, _ | _⟩, bs⟩
  · exact apart
  all_goals
    simp only [printBinders, String.toList_append, List.append_assoc]
    rfl

theorem breaks_printArms (as : List Arm) (apart : breaks rest) :
    breaks ((printArms as).toList ++ rest) := by
  rcases as with _ | ⟨⟨ps, t⟩, as⟩
  · exact apart
  · simp only [printArms, String.toList_append, List.append_assoc]
    rfl

end Breaks

theorem scans_printArgs {ts : List Term} (each : ∀ t ∈ ts, Scans t.print t.tokens) :
    Scans (printArgs ts) (tokensArgs ts) := by
  induction ts with
  | nil => exact scans_nil
  | cons t ts ih =>
    obtain ⟨first, others⟩ := List.forall_mem_cons.1 each
    intro rest apart
    simp only [printArgs, String.toList_append, List.append_assoc]
    change scan [] ((parenthesized t.isAtom t.print).toList ++ _) = _
    rw [first.parenthesized _ _ (breaks_printArgs ts apart), ih others rest apart, tokensArgs,
      List.append_assoc]

theorem scans_printType {ty : Option Term} (each : ∀ t ∈ ty, Scans t.print t.tokens) :
    Scans (printType ty) (tokensType ty) := by
  cases ty with
  | none => exact scans_nil
  | some t =>
    intro rest apart
    simp only [printType, String.toList_append, List.append_assoc]
    rw [scan_piece " : " .colon (by decide) rfl (.inl rfl), each t rfl rest apart]
    rfl

section Binders

variable {x : String} {ty : Option Term} {bs : List Binder}

/-- Inside brackets a binder is its name and its type, and the closing bracket ends both. -/
theorem scan_bracketed (name : Identifier.Legible x) (type : ∀ t ∈ ty, Scans t.print t.tokens)
    {c : Char} {k : Symbol} (mark : isMark c)
    (own : ∀ cs, scan [] (c :: cs) = .symbol k :: scan [] cs) (cs : List Char) :
    scan [] (x.toList ++ ((printType ty).toList ++ c :: cs)) =
      .name x :: (tokensType ty ++ .symbol k :: scan [] cs) := by
  have apart : breaks (c :: cs) := by simp [breaks, mark]
  rw [name.scans _ (breaks_printType ty apart), scans_printType type _ apart, own]
  rfl

theorem scans_binder (implicit : Bool) (name : Identifier.Legible x)
    (type : ∀ t ∈ ty, Scans t.print t.tokens)
    (others : Scans (printBinders bs) (tokensBinders bs)) :
    Scans (printBinders (.mk x ty implicit :: bs)) (tokensBinders (.mk x ty implicit :: bs)) := by
  intro rest apart
  have later := others rest apart
  have parens := scan_bracketed (c := ')') (k := .rparen) name type rfl fun _ => rfl
  have braces := scan_bracketed (c := '\x7d') (k := .rbrace) name type rfl fun _ => rfl
  cases implicit with
  | true =>
    have text : (printBinders (.mk x ty true :: bs)).toList ++ rest =
        ' ' :: '\x7b' :: (x.toList ++ ((printType ty).toList ++ '\x7d' ::
          ((printBinders bs).toList ++ rest))) := by
      cases ty <;> simp [printBinders]
    rw [text]
    change .symbol .lbrace :: scan [] (x.toList ++ _) = _
    rw [braces, later]
    cases ty <;> simp [tokensBinders]
  | false =>
    cases ty with
    | none =>
      simp only [printBinders, String.toList_append, List.append_assoc]
      change scan [] (x.toList ++ ((printBinders bs).toList ++ rest)) = _
      rw [name.scans _ (breaks_printBinders bs apart), later]
      rfl
    | some t =>
      have text : (printBinders (.mk x (some t) false :: bs)).toList ++ rest =
          ' ' :: '(' :: (x.toList ++ ((printType (some t)).toList ++ ')' ::
            ((printBinders bs).toList ++ rest))) := by
        simp [printBinders]
      rw [text]
      change .symbol .lparen :: scan [] (x.toList ++ _) = _
      rw [parens, later]
      simp [tokensBinders]

theorem scans_printBinders (names : ∀ b ∈ bs, Identifier.Legible b.name)
    (types : ∀ b ∈ bs, ∀ t ∈ b.type, Scans t.print t.tokens) :
    Scans (printBinders bs) (tokensBinders bs) := by
  induction bs with
  | nil => exact scans_nil
  | cons b bs ih =>
    obtain ⟨x, ty, implicit⟩ := b
    obtain ⟨name, later⟩ := List.forall_mem_cons.1 names
    obtain ⟨type, others⟩ := List.forall_mem_cons.1 types
    exact scans_binder implicit name type (ih later others)

/-- The front of a definition: its name, its binders and its type, up to what it is defined as. -/
theorem scan_header (name : Identifier.Legible x) (names : ∀ b ∈ bs, Identifier.Legible b.name)
    (types : ∀ b ∈ bs, ∀ t ∈ b.type, Scans t.print t.tokens)
    (type : ∀ t ∈ ty, Scans t.print t.tokens) (cs : List Char) :
    scan [] (x.toList ++ ((printBinders bs).toList ++ ((printType ty).toList ++
        (" := ".toList ++ cs)))) =
      .name x :: (tokensBinders bs ++ (tokensType ty ++ .symbol .assign :: scan [] cs)) := by
  have typed := scans_printType type (" := ".toList ++ cs) rfl
  rw [name.scans _ (breaks_printBinders bs (breaks_printType ty rfl)),
    scans_printBinders names types _ (breaks_printType ty rfl), typed,
    scan_piece " := " .assign (by decide) rfl (.inl rfl)]
  rfl

end Binders

theorem scans_arm {ps : List Pattern} {t : Term} {as : List Arm}
    (legible : ∀ p ∈ ps, p.Legible) (body : Scans t.print t.tokens)
    (others : Scans (printArms as) (tokensArms as)) :
    Scans (printArms (.mk ps t :: as)) (tokensArms (.mk ps t :: as)) := by
  intro rest apart
  have patterns : Scans (", ".intercalate (ps.map Pattern.print))
      (commaSep (ps.map Pattern.tokens)) :=
    scans_intercalate fun p hp => Pattern.scans_print (legible p hp)
  simp only [printArms, String.toList_append, List.append_assoc]
  rw [scan_piece " | " .bar (by decide) rfl (.inl rfl), patterns _ rfl,
    scan_piece " => " .fatArrow (by decide) rfl (.inl rfl), body _ (breaks_printArms as apart),
    others rest apart]
  simp [tokensArms]

theorem scans_printArms {as : List Arm} (patterns : ∀ a ∈ as, ∀ p ∈ a.patterns, p.Legible)
    (bodies : ∀ a ∈ as, Scans a.body.print a.body.tokens) :
    Scans (printArms as) (tokensArms as) := by
  induction as with
  | nil => exact scans_nil
  | cons a as ih =>
    obtain ⟨ps, t⟩ := a
    obtain ⟨legible, later⟩ := List.forall_mem_cons.1 patterns
    obtain ⟨body, others⟩ := List.forall_mem_cons.1 bodies
    exact scans_arm legible body (ih later others)

theorem quotedString_eq {s : String} (plain : '"' ∉ s.toList) :
    quotedString s = "\"" ++ s ++ "\"" := by
  have chars : ∀ cs : List Char, '"' ∉ cs →
      (cs.flatMap fun c => if c = '"' then ['"', '"'] else [c]) = cs := by
    intro cs
    induction cs with
    | nil => exact fun _ => rfl
    | cons c cs ih =>
      intro plain
      have other : ¬ c = '"' := fun same => plain (same ▸ List.mem_cons_self ..)
      rw [List.flatMap_cons, ih fun later => plain (List.mem_cons_of_mem _ later), if_neg other,
        List.singleton_append]
  rw [quotedString, chars _ plain, String.ofList_toList]

/-- Wherever a legible term is written, its tokens can be found. -/
theorem scans_print {t : Term} (h : t.Legible) : Scans t.print t.tokens := by
  induction t using induction_children with
  | step t ih =>
    obtain ⟨node, parts⟩ := every_iff.1 h
    have ih : ∀ u ∈ t.children, Scans u.print u.tokens := fun u hu => ih u hu (parts u hu)
    intro rest apart
    cases t with
    | missing => cases node
    | foreign kind => cases node
    | var x => exact node.scans rest apart
    | sort x => exact node.scans rest apart
    | hole => exact scans_underscore rest apart
    | num n =>
      obtain ⟨n, rfl⟩ := Option.isSome_iff_exists.1 node
      exact scans_decimal n rest apart
    | str s =>
      rw [print, quotedString_eq node]
      exact scans_str node rest apart
    | app f ts =>
      obtain ⟨head, args⟩ := List.forall_mem_cons.1 ih
      simp only [print, String.toList_append, List.append_assoc]
      rw [head.parenthesized _ _ (breaks_printArgs ts apart), scans_printArgs args rest apart,
        tokens, List.append_assoc]
    | lam bs t =>
      obtain ⟨types, body⟩ := List.forall_mem_append.1 ih
      have binders := scans_printBinders node (forall_binder_types.1 types)
      simp only [print, String.toList_append, List.append_assoc]
      rw [scan_piece "fun" .kwFun (by decide) rfl (.inr (breaks_printBinders bs rfl)),
        binders _ rfl, scan_piece " => " .fatArrow (by decide) rfl (.inl rfl),
        List.forall_mem_singleton.1 body rest apart]
      simp [tokens]
    | pi bs t =>
      obtain ⟨types, body⟩ := List.forall_mem_append.1 ih
      have binders := scans_printBinders node (forall_binder_types.1 types)
      simp only [print, String.toList_append, List.append_assoc]
      rw [scan_piece "forall" .kwForall (by decide) rfl (.inr (breaks_printBinders bs rfl)),
        binders _ rfl, scan_piece ", " .comma (by decide) rfl (.inl rfl),
        List.forall_mem_singleton.1 body rest apart]
      simp [tokens]
    | fix x bs ty t =>
      obtain ⟨types, others⟩ := List.forall_mem_append.1 ih
      obtain ⟨type, body⟩ := List.forall_mem_append.1 others
      have header := scan_header node.1 node.2 (forall_binder_types.1 types)
        (forall_optional_type.1 type)
      simp only [print, String.toList_append, List.append_assoc]
      rw [scan_piece "fix " .kwFix (by decide) rfl (.inl rfl), header,
        List.forall_mem_singleton.1 body rest apart]
      simp [tokens]
    | letIn x bs ty v t =>
      obtain ⟨types, others⟩ := List.forall_mem_append.1 ih
      obtain ⟨type, parts⟩ := List.forall_mem_append.1 others
      obtain ⟨value, body⟩ := List.forall_mem_cons.1 parts
      have header := scan_header node.1 node.2 (forall_binder_types.1 types)
        (forall_optional_type.1 type)
      simp only [print, String.toList_append, List.append_assoc]
      rw [scan_piece "let " .kwLet (by decide) rfl (.inl rfl), header, value _ rfl,
        scan_piece " in " .kwIn (by decide) rfl (.inl rfl),
        List.forall_mem_singleton.1 body rest apart]
      simp [tokens]
    | caseOf ts as =>
      obtain ⟨scrutinees, bodies⟩ := List.forall_mem_append.1 ih
      have list : Scans (printCommas ts) (commaSep (tokensAll ts)) := by
        rw [printCommas_eq, tokensAll_eq]
        exact scans_intercalate scrutinees
      have arms := scans_printArms node (List.forall_mem_map.1 bodies)
      simp only [print, String.toList_append, List.append_assoc]
      rw [scan_piece "match " .kwMatch (by decide) rfl (.inl rfl), list _ rfl,
        scan_piece " with" .kwWith (by decide) rfl (.inr (breaks_printArms as rfl)),
        arms _ rfl, scan_piece " end" .kwEnd (by decide) rfl (.inr apart)]
      simp [tokens]
    | parens t =>
      have inner := (List.forall_mem_singleton.1 ih).parenthesized false rest apart
      simpa [tokens, enclosed, parenthesized, print] using inner
    | arrow t u =>
      obtain ⟨dom, cod⟩ := List.forall_mem_cons.1 ih
      simp only [print, String.toList_append, List.append_assoc]
      rw [dom.parenthesized _ _ rfl, scan_piece " -> " .arrow (by decide) rfl (.inl rfl),
        List.forall_mem_singleton.1 cod rest apart]
      simp [tokens]
    | ascribed t u =>
      obtain ⟨term, type⟩ := List.forall_mem_cons.1 ih
      simp only [print, String.toList_append, List.append_assoc]
      rw [term.parenthesized _ _ rfl, scan_piece " : " .colon (by decide) rfl (.inl rfl),
        List.forall_mem_singleton.1 type rest apart]
      simp [tokens]
    | ite c t u =>
      obtain ⟨cond, branches⟩ := List.forall_mem_cons.1 ih
      obtain ⟨yes, no⟩ := List.forall_mem_cons.1 branches
      simp only [print, String.toList_append, List.append_assoc]
      rw [scan_piece "if " .kwIf (by decide) rfl (.inl rfl), cond _ rfl,
        scan_piece " then " .kwThen (by decide) rfl (.inl rfl), yes _ rfl,
        scan_piece " else " .kwElse (by decide) rfl (.inl rfl),
        List.forall_mem_singleton.1 no rest apart]
      simp [tokens]

theorem tokens_eq_of_print_eq {t u : Term} (ht : t.Legible) (hu : u.Legible)
    (same : t.print = u.print) : t.tokens = u.tokens := by
  have left := scans_print ht
  rw [same] at left
  exact left.unique (scans_print hu)

end Term

end Vernacular
