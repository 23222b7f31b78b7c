import Vernacular.Surface.Value

/-!
Texts between delimiters, as the target language reads them. A string literal ends at the first quote
that stands alone, and a comment where as many closing marks as opening ones have been read. The
literals of terms are read back whatever they hold, those of patterns if they hold no quote, and a
comment ends where its written form does if its text has no opening mark.
-/

set_option autoImplicit false

namespace Vernacular

namespace Lexeme

section Strings

/-- A string behind its opening quote, and what follows it. Two quotes in a row stand for one, and a
quote that stands alone is the end. -/
def stringBody : List Char → Option (List Char × List Char)
  | [] => none
  | '"' :: '"' :: cs => (stringBody cs).map fun p => ('"' :: p.1, p.2)
  | '"' :: cs => some ([], cs)
  | c :: cs => (stringBody cs).map fun p => (c :: p.1, p.2)

def string : List Char → Option (String × List Char)
  | '"' :: cs => (stringBody cs).map fun p => (String.ofList p.1, p.2)
  | _ => none

def doubled (s : List Char) : List Char :=
  s.flatMap fun c => if c = '"' then ['"', '"'] else [c]

variable {cs s rest left : List Char}

theorem doubled_quote (s : List Char) : doubled ('"' :: s) = '"' :: '"' :: doubled s :=
  rfl

theorem doubled_cons {c : Char} (other : c ≠ '"') (s : List Char) :
    doubled (c :: s) = c :: doubled s := by
  simp [doubled, other]

theorem stringBody_doubled (apart : rest.head? ≠ some '"') :
    stringBody (doubled s ++ '"' :: rest) = some (s, rest) := by
  induction s with
  | nil =>
    cases rest with
    | nil => rfl
    | cons c rest =>
      have other : c ≠ '"' := by simpa using apart
      simp [doubled, stringBody, other]
  | cons c s ih =>
    by_cases quote : c = '"'
    · rw [quote, doubled_quote]
      simp [stringBody, ih]
    · rw [doubled_cons quote]
      simp [stringBody, quote, ih]

theorem eq_doubled_of_stringBody (h : stringBody cs = some (s, rest)) :
    cs = doubled s ++ '"' :: rest ∧ rest.head? ≠ some '"' := by
  fun_induction stringBody cs generalizing s with
  | case1 => cases h
  | case2 cs ih =>
    obtain ⟨⟨t, left⟩, inner, same⟩ := Option.map_eq_some_iff.1 h
    cases same
    obtain ⟨text, apart⟩ := ih inner
    exact ⟨by rw [doubled_quote, text]; rfl, apart⟩
  | case3 cs single =>
    cases h
    refine ⟨rfl, fun quote => ?_⟩
    obtain ⟨cs, rfl⟩ := List.head?_eq_some_iff.1 quote
    exact single cs rfl
  | case4 c cs _ other ih =>
    obtain ⟨⟨t, left⟩, inner, same⟩ := Option.map_eq_some_iff.1 h
    cases same
    obtain ⟨text, apart⟩ := ih inner
    exact ⟨by rw [doubled_cons other, text]; rfl, apart⟩

theorem stringBody_eq_some :
    stringBody cs = some (s, rest) ↔ cs = doubled s ++ '"' :: rest ∧ rest.head? ≠ some '"' := by
  constructor
  · exact eq_doubled_of_stringBody
  · rintro ⟨rfl, apart⟩
    exact stringBody_doubled apart

theorem string_eq_some {s : String} :
    string ('"' :: cs) = some (s, rest) ↔
      cs = doubled s.toList ++ '"' :: rest ∧ rest.head? ≠ some '"' := by
  rw [← stringBody_eq_some, string, Option.map_eq_some_iff]
  constructor
  · rintro ⟨p, read, same⟩
    cases same
    rw [read, String.toList_ofList]
  · intro read
    exact ⟨_, read, by rw [String.ofList_toList]⟩

/-- With a quote too many in front, doubled quotes reach beyond the quote that ends a text. -/
theorem append_ne_replicate_append (apart : rest.head? ≠ some '"') (left : List Char) (k : Nat) :
    s ++ '"' :: rest ≠ List.replicate (k + 1) '"' ++ (doubled s ++ '"' :: left) := by
  induction s generalizing k with
  | nil =>
    intro same
    have tails : rest = List.replicate k '"' ++ '"' :: left := by
      simpa [List.replicate_succ, doubled] using same
    cases k <;> simp [tails, List.replicate_succ] at apart
  | cons c s ih =>
    intro same
    obtain ⟨rfl, tails⟩ : c = '"' ∧ s ++ '"' :: rest =
        List.replicate k '"' ++ (doubled (c :: s) ++ '"' :: left) := by
      simpa [List.replicate_succ] using same
    -- the quote takes one away in front, and two come in for it
    refine ih (k + 1) (tails.trans ?_)
    rw [doubled_quote, ← List.replicate_append_replicate (n := k) (m := 2), List.append_assoc]
    rfl

theorem append_eq_doubled_append (apart : rest.head? ≠ some '"') :
    s ++ '"' :: rest = doubled s ++ '"' :: left ↔ '"' ∉ s ∧ left = rest := by
  induction s with
  | nil => simp [doubled, eq_comm]
  | cons c s ih =>
    by_cases quote : c = '"'
    · subst quote
      have longer := append_ne_replicate_append (s := s) apart left 0
      simpa [doubled_quote] using longer
    · rw [doubled_cons quote]
      simp [ih, Ne.symm quote]

/-- A string in a term is read back whatever it holds. A string in a pattern, in which quotes are
not doubled, is read back if and only if it holds no quote. -/
theorem string_read_back (s : String) (rest : List Char) (apart : rest.head? ≠ some '"') :
    string ((Term.str s).print.toList ++ rest) = some (s, rest) ∧
      ∀ left, string ((Pattern.str s).print.toList ++ rest) = some (s, left) ↔
        '"' ∉ s.toList ∧ left = rest := by
  have term : (Term.str s).print.toList ++ rest = '"' :: (doubled s.toList ++ '"' :: rest) := by
    simp [Term.print, Term.quotedString, doubled]
  have pattern : (Pattern.str s).print.toList ++ rest = '"' :: (s.toList ++ '"' :: rest) := by
    simp [Pattern.print]
  refine ⟨?_, fun left => ?_⟩
  · rw [term, string_eq_some]
    exact ⟨rfl, apart⟩
  · rw [pattern, string_eq_some, append_eq_doubled_append apart]
    constructor
    · rintro ⟨found, -⟩
      exact found
    · rintro ⟨plain, rfl⟩
      exact ⟨⟨plain, rfl⟩, apart⟩

theorem quotes_read_back :
    string ((Term.str "\"a\"\"\"b\"").print.toList ++ " end".toList) =
        some ("\"a\"\"\"b\"", " end".toList) ∧
      string ((Pattern.str "x) as (y").print.toList ++ " => x".toList) =
        some ("x) as (y", " => x".toList) := by
  have term := string_read_back "\"a\"\"\"b\"" " end".toList (by decide)
  have pattern := string_read_back "x) as (y" " => x".toList (by decide)
  exact ⟨term.1, (pattern.2 _).2 ⟨by decide, rfl⟩⟩

theorem quoted_pattern_cut_off :
    (Pattern.str "a\"b").print = "\"a\"b\"" ∧
      string ((Pattern.str "a\"b").print.toList ++ []) = some ("a", ['b', '"']) :=
  ⟨rfl, rfl⟩

end Strings

section Comments

/-- What follows in a text once so many open comments are closed. -/
def leave : Nat → List Char → Option (List Char)
  | 0, cs => some cs
  | _ + 1, [] => none
  | d + 1, '(' :: '*' :: cs => leave (d + 2) cs
  | d + 1, '*' :: ')' :: cs => leave d cs
  | d + 1, _ :: cs => leave (d + 1) cs

def comment : List Char → Option (List Char)
  | '(' :: '*' :: cs => leave 1 cs
  | _ => none

def openings : List Char → Nat
  | [] => 0
  | '(' :: '*' :: cs => openings cs + 1
  | _ :: cs => openings cs

variable {c : Char} {d : Nat} {cs rest left : List Char}

theorem leave_cons (opens : c = '(' → cs.head? ≠ some '*') (closes : c = '*' → cs.head? ≠ some ')') :
    leave (d + 1) (c :: cs) = leave (d + 1) cs := by
  rw [leave]
  · rintro cs rfl rfl
    exact opens rfl rfl
  · rintro cs rfl rfl
    exact closes rfl rfl

/-- What follows is a part of the text, behind at least one character for each comment. -/
theorem leave_spec (h : leave d cs = some left) : ∃ front, cs = front ++ left ∧ d ≤ front.length := by
  fun_induction leave d cs with
  | case1 cs =>
    cases h
    exact ⟨[], rfl, Nat.le_refl 0⟩
  | case2 => cases h
  | case3 d cs ih =>
    obtain ⟨front, rfl, enough⟩ := ih h
    exact ⟨'(' :: '*' :: front, rfl, by simp; omega⟩
  | case4 d cs ih =>
    obtain ⟨front, rfl, enough⟩ := ih h
    exact ⟨'*' :: ')' :: front, rfl, by simp; omega⟩
  | case5 d c cs _ _ ih =>
    obtain ⟨front, rfl, enough⟩ := ih h
    exact ⟨c :: front, rfl, by simp; omega⟩

theorem leave_eq_self : leave d cs = some cs ↔ d = 0 := by
  constructor
  · intro h
    obtain ⟨front, whole, enough⟩ := leave_spec h
    have none : front = [] := by simpa using whole
    simpa [none] using enough
  · rintro rfl
    rw [leave]

theorem openings_cons (c : Char) (cs : List Char) :
    openings (c :: cs) = openings cs + if c = '(' ∧ cs.head? = some '*' then 1 else 0 := by
  by_cases mark : c = '(' ∧ cs.head? = some '*'
  · obtain ⟨rfl, star⟩ := mark
    obtain ⟨cs, rfl⟩ := List.head?_eq_some_iff.1 star
    simp [openings]
  · rw [openings, if_neg mark, Nat.add_zero]
    rintro cs rfl rfl
    exact mark ⟨rfl, rfl⟩

theorem openings_eq_zero : openings cs = 0 ↔ ¬ ['(', '*'] <:+: cs := by
  induction cs with
  | nil => simp [openings]
  | cons c cs ih =>
    rw [openings_cons, List.infix_cons_iff, not_or, ← ih, Nat.add_eq_zero_iff, and_comm]
    refine and_congr_left fun _ => ?_
    cases cs <;> simp [eq_comm]

theorem shielded_cons (c : Char) (cs : List Char) :
    shielded (c :: cs) =
      c :: ((if c = '*' ∧ cs.head? = some ')' then [' '] else []) ++ shielded cs) := by
  by_cases mark : c = '*' ∧ cs.head? = some ')'
  · obtain ⟨rfl, paren⟩ := mark
    obtain ⟨cs, rfl⟩ := List.head?_eq_some_iff.1 paren
    simp [shielded]
  · rw [shielded, if_neg mark, List.nil_append]
    rintro cs rfl rfl
    exact mark ⟨rfl, rfl⟩

theorem head?_shielded_ne {b : Char} (first : cs.head? ≠ some b) (other : b ≠ ' ') :
    (shielded cs ++ ' ' :: rest).head? ≠ some b := by
  cases cs with
  | nil => simpa [shielded] using other.symm
  | cons c cs =>
    rw [shielded_cons]
    simpa using first

/-- Behind a star of a shielded text there is no closing parenthesis, and the blank that may have
been put there makes no difference. -/
theorem shielded_star (cs rest : List Char) :
    ∃ behind, shielded ('*' :: cs) ++ ' ' :: rest = '*' :: behind ∧ behind.head? ≠ some ')' ∧
      ∀ d, leave (d + 1) behind = leave (d + 1) (shielded cs ++ ' ' :: rest) := by
  by_cases paren : cs.head? = some ')'
  · refine ⟨' ' :: (shielded cs ++ ' ' :: rest), ?_, by simp, fun d => leave_cons (by simp) (by simp)⟩
    rw [shielded_cons, if_pos ⟨rfl, paren⟩]
    rfl
  · refine ⟨shielded cs ++ ' ' :: rest, ?_, ?_, fun d => rfl⟩
    · rw [shielded_cons, if_neg fun mark => paren mark.2]
      rfl
    · exact head?_shielded_ne paren (by decide)

/-- A shielded text closes no comment, and opens as many as it has opening marks. -/
theorem leave_shielded (d : Nat) (text rest : List Char) :
    leave (d + 1) (shielded text ++ ' ' :: '*' :: ')' :: rest) = leave (d + openings text) rest := by
  induction text generalizing d with
  | nil => rfl
  | cons c cs ih =>
    by_cases star : c = '*'
    · subst star
      obtain ⟨behind, text, apart, same⟩ := shielded_star cs ('*' :: ')' :: rest)
      rw [text, leave_cons (by simp) fun _ => apart, same, ih, openings_cons]
      simp
    · have shield : shielded (c :: cs) = c :: shielded cs := by
        rw [shielded_cons, if_neg fun mark => star mark.1, List.nil_append]
      rw [shield, List.cons_append, openings_cons]
      by_cases mark : c = '(' ∧ cs.head? = some '*'
      · -- the star is read with the parenthesis, and what is behind it as if it were read alone
        obtain ⟨rfl, first⟩ := mark
        obtain ⟨cs, rfl⟩ := List.head?_eq_some_iff.1 first
        obtain ⟨behind, text, apart, -⟩ := shielded_star cs ('*' :: ')' :: rest)
        have later := ih (d + 1)
        rw [text, leave_cons (by simp) fun _ => apart] at later
        have count : d + 1 + openings ('*' :: cs) = d + (openings ('*' :: cs) + 1) := by omega
        rw [text, leave, later, count, if_pos ⟨rfl, rfl⟩]
      · rw [leave_cons ?_ fun same => absurd same star, ih, if_neg mark, Nat.add_zero]
        exact fun same => head?_shielded_ne (fun first => mark ⟨same, first⟩) (by decide)

theorem comment_print (text : String) (rest : List Char) :
    comment ((Sentence.comment text).print.toList ++ rest) = leave (openings text.toList) rest := by
  have written : (Sentence.comment text).print.toList ++ rest =
      '(' :: '*' :: ' ' :: (shielded text.toList ++ ' ' :: '*' :: ')' :: rest) := by
    change ("(* " ++ String.ofList (shielded text.toList) ++ " *)").toList ++ rest = _
    simp
  rw [written, comment, leave_cons (by simp) (by simp), leave_shielded, Nat.zero_add]

theorem openings_append {xs ys : List Char}
    (apart : xs.getLast? = some '(' → ys.head? ≠ some '*') :
    openings (xs ++ ys) = openings xs + openings ys := by
  induction xs with
  | nil => simp [openings]
  | cons c xs ih =>
    rw [List.cons_append, openings_cons, openings_cons]
    cases xs with
    | nil =>
      have split : ¬ (c = '(' ∧ ys.head? = some '*') := fun mark => apart (by simp [mark.1]) mark.2
      simp [openings, split]
    | cons x xs =>
      rw [ih (by simpa using apart), List.cons_append, List.head?_cons, List.head?_cons]
      omega

theorem openings_stub (name message : String) :
    openings ("Translating `" ++ name ++ "' failed: " ++ message).toList =
      openings name.toList + openings message.toList := by
  have start : openings "Translating `".toList = 0 := by decide
  have middle : openings "' failed: ".toList = 0 := by decide
  simp only [String.toList_append, List.append_assoc]
  rw [openings_append (by simp), openings_append (by simp), openings_append (by simp), start, middle,
    Nat.zero_add, Nat.zero_add]

theorem render_stub (table : Table) (d : Surface.Value) (f : Fault) (following : List Sentence) :
    Sentence.render (d.stub table f ++ following) =
      (Sentence.comment ("Translating `" ++ d.name ++ "' failed: " ++ f.message)).print ++
        ("\n\n" ++ Sentence.render ((d.stub table f).tail ++ following)) := by
  simp only [Surface.Value.stub, Sentence.render, List.cons_append, List.map_cons,
    String.intercalate_cons_cons, List.tail_cons, String.append_assoc]

theorem comment_stub (table : Table) (d : Surface.Value) (f : Fault) (following : List Sentence) :
    comment (Sentence.render (d.stub table f ++ following)).toList =
        some ("\n\n" ++ Sentence.render ((d.stub table f).tail ++ following)).toList ↔
      openings d.name.toList + openings f.message.toList = 0 := by
  rw [render_stub, String.toList_append, comment_print, leave_eq_self, openings_stub]

/-- Behind a written comment as many comments are open as its text has opening marks. So it never
ends early, and it ends where its written form does if and only if the text has none. The comment on
a value that has been replaced leaves alone what follows if and only if there is none in the name of
the value and in the message of the fault. -/
theorem comment_closed_iff (text : String) (rest : List Char) (table : Table) (d : Surface.Value)
    (f : Fault) (following : List Sentence) :
    (comment ((Sentence.comment text).print.toList ++ rest) = leave (openings text.toList) rest ∧
      (∀ left, comment ((Sentence.comment text).print.toList ++ rest) = some left →
        left <:+ rest) ∧
      (comment ((Sentence.comment text).print.toList ++ rest) = some rest ↔
        ¬ ['(', '*'] <:+: text.toList)) ∧
    (comment (Sentence.render (d.stub table f ++ following)).toList =
        some ("\n\n" ++ Sentence.render ((d.stub table f).tail ++ following)).toList ↔
      ¬ ['(', '*'] <:+: d.name.toList ∧ ¬ ['(', '*'] <:+: f.message.toList) := by
  refine ⟨⟨comment_print text rest, fun left h => ?_, ?_⟩, ?_⟩
  · rw [comment_print] at h
    obtain ⟨front, rfl, -⟩ := leave_spec h
    exact List.suffix_append front left
  · rw [comment_print, leave_eq_self, openings_eq_zero]
  · rw [comment_stub, Nat.add_eq_zero_iff, openings_eq_zero, openings_eq_zero]

/-- A value that is named by an operator in parentheses and has no equations. -/
def starred : Surface.Value :=
  { binding := .mk {} "(*)" [], signature := none }

/-- A comment with an opening mark takes in the sentences behind it, and so does the comment on a
value with such a name. -/
theorem opened_comment_goes_on :
    (Sentence.comment "(*").print = "(* (* *)" ∧
      comment (Sentence.comment "(*").print.toList = none ∧
      comment (Sentence.render [.comment "(*", .assume "x" (.var "nat")]).toList = none ∧
      starred.lower .initial = .error (.malformed .bindingWithoutEquations) ∧
      comment (Sentence.render (starred.stub .initial (.malformed .bindingWithoutEquations))).toList ≠
        some ("\n\n" ++ Sentence.render
          (starred.stub .initial (.malformed .bindingWithoutEquations)).tail).toList := by
  have stub := comment_stub .initial starred (.malformed .bindingWithoutEquations) []
  rw [List.append_nil, List.append_nil] at stub
  exact ⟨rfl, by decide, by decide, rfl, fun closed => absurd (stub.1 closed) (by decide)⟩

end Comments

end Lexeme

end Vernacular
