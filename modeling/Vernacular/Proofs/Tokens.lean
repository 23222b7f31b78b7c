import Std.Data.String.ToInt
import Vernacular.Pattern

/-!
Tokens of written texts. A text is cut at blanks, at the marks of brackets and commas, and at
quotes, and what stands between them is a symbol, a number or a name. Names that look like names and
are no symbols are read back as themselves, and so are numbers and strings without quotes in them.
-/

set_option autoImplicit false

namespace Vernacular

/-- The words and signs that the written form of terms is built with. -/
inductive Symbol where
  | kwAs | kwElse | kwEnd | kwFix | kwForall | kwFun | kwIf | kwIn | kwLet | kwMatch | kwThen
  | kwWith | arrow | assign | bar | colon | comma | fatArrow | lbrace | lparen | rbrace | rparen
  | underscore
deriving DecidableEq

namespace Symbol

def text : Symbol → String
  | .kwAs => "as"
  | .kwElse => "else"
  | .kwEnd => "end"
  | .kwFix => "fix"
  | .kwForall => "forall"
  | .kwFun => "fun"
  | .kwIf => "if"
  | .kwIn => "in"
  | .kwLet => "let"
  | .kwMatch => "match"
  | .kwThen => "then"
  | .kwWith => "with"
  | .arrow => "->"
  | .assign => ":="
  | .bar => "|"
  | .colon => ":"
  | .comma => ","
  | .fatArrow => "=>"
  | .lbrace => "\x7b"
  | .lparen => "("
  | .rbrace => "\x7d"
  | .rparen => ")"
  | .underscore => "_"

def all : List Symbol :=
  [.kwAs, .kwElse, .kwEnd, .kwFix, .kwForall, .kwFun, .kwIf, .kwIn, .kwLet, .kwMatch, .kwThen,
    .kwWith, .arrow, .assign, .bar, .colon, .comma, .fatArrow, .lbrace, .lparen, .rbrace, .rparen,
    .underscore]

theorem mem_all (k : Symbol) : k ∈ all := by
  cases k <;> decide

def ofText? (w : String) : Option Symbol :=
  all.find? (·.text = w)

theorem ofText?_eq_none {w : String} (h : ∀ k : Symbol, k.text ≠ w) : ofText? w = none := by
  rw [ofText?, List.find?_eq_none]
  exact fun k _ => by simpa using h k

end Symbol

inductive Token where
  | symbol (k : Symbol)
  | name (x : String)
  | num (n : Int)
  | str (s : String)

namespace Token

def ofWord (w : String) : Token :=
  match Symbol.ofText? w with
  | some k => .symbol k
  | none =>
    match w.toInt? with
    | some n => .num n
    | none => .name w

def marks : List Char :=
  ['(', ')', '\x7b', '\x7d', ',']

def isMark (c : Char) : Bool :=
  marks.contains c

def ended (w : List Char) (ts : List Token) : List Token :=
  match w with
  | [] => ts
  | c :: w => ofWord (String.ofList (c :: w)) :: ts

mutual

/-- The tokens of a text that stands behind the beginning of a word. -/
def scan (w : List Char) : List Char → List Token
  | [] => ended w []
  | c :: cs =>
    if c = ' ' then ended w (scan [] cs)
    else if isMark c then ended w (ofWord (String.ofList [c]) :: scan [] cs)
    else if c = '"' then ended w (scanString [] cs)
    else scan (w ++ [c]) cs

/-- The tokens of a text that stands behind the beginning of a string. -/
def scanString (s : List Char) : List Char → List Token
  | [] => []
  | c :: cs =>
    if c = '"' then .str (String.ofList s) :: scan [] cs else scanString (s ++ [c]) cs

end

/-- Whether a word that stands in front of a text ends there. -/
def breaks : List Char → Bool
  | [] => true
  | c :: _ => c = ' ' || isMark c

section Scan

variable {w s rest : List Char}

theorem ended_eq (w : List Char) (ts : List Token) : ended w ts = ended w [] ++ ts := by
  cases w <;> rfl

theorem scan_of_breaks (h : breaks rest) : scan w rest = ended w [] ++ scan [] rest := by
  cases rest with
  | nil => cases w <;> rfl
  | cons c cs =>
    by_cases blank : c = ' '
    · simp only [scan, blank, if_true]
      exact ended_eq _ _
    · have mark : isMark c := by simpa [breaks, blank] using h
      simp only [scan, blank, mark, if_true, if_false]
      exact ended_eq _ _

theorem scan_append (plain : '"' ∉ s) (h : breaks rest) :
    scan w (s ++ rest) = scan w s ++ scan [] rest := by
  induction s generalizing w with
  | nil => exact scan_of_breaks h
  | cons c s ih =>
    have other : ¬ c = '"' := fun same => plain (same ▸ List.mem_cons_self ..)
    have ih := fun w => @ih w fun later => plain (List.mem_cons_of_mem _ later)
    rw [List.cons_append]
    by_cases blank : c = ' '
    · simp only [scan, blank, if_true]
      rw [ih, ended_eq, ended_eq w (scan [] s), List.append_assoc]
    · by_cases mark : isMark c
      · simp only [scan, blank, mark, if_true, if_false]
        rw [ih, ended_eq, ended_eq w (_ :: scan [] s), List.append_assoc, List.cons_append]
      · simp only [scan, blank, mark, other, Bool.false_eq_true, if_false]
        exact ih _

/-- The text of a symbol is cut off from what follows by a blank at its end, or by the text that
follows. -/
theorem scan_piece (s : String) (k : Symbol) (plain : '"' ∉ s.toList)
    (own : scan [] s.toList = [.symbol k]) (apart : s.toList.getLast? = some ' ' ∨ breaks rest) :
    scan [] (s.toList ++ rest) = .symbol k :: scan [] rest := by
  rcases apart with last | apart
  · obtain ⟨front, blank⟩ := List.getLast?_eq_some_iff.1 last
    rw [blank] at plain own ⊢
    have inner : '"' ∉ front := fun h => plain (List.mem_append_left _ h)
    rw [scan_append inner rfl] at own
    have word : scan [] front = [.symbol k] := by simpa [scan, ended] using own
    rw [List.append_assoc, List.singleton_append, scan_append inner rfl, word]
    rfl
  · rw [scan_append plain apart, own]
    rfl

theorem scan_word (h : ∀ c ∈ s, c ≠ ' ' ∧ ¬ isMark c ∧ c ≠ '"') : scan w s = ended (w ++ s) [] := by
  induction s generalizing w with
  | nil => rw [List.append_nil]; rfl
  | cons c s ih =>
    obtain ⟨⟨blank, mark, quote⟩, others⟩ := List.forall_mem_cons.1 h
    simp only [scan, blank, mark, quote, Bool.false_eq_true, if_false]
    rw [ih others, List.append_assoc, List.singleton_append]

theorem scanString_quote {t : List Char} (plain : '"' ∉ t) :
    scanString s (t ++ '"' :: rest) = .str (String.ofList (s ++ t)) :: scan [] rest := by
  induction t generalizing s with
  | nil => simp [scanString]
  | cons c t ih =>
    have other : ¬ c = '"' := fun same => plain (same ▸ List.mem_cons_self ..)
    simp only [List.cons_append, scanString, other, if_false]
    rw [ih fun later => plain (List.mem_cons_of_mem _ later), List.append_assoc,
      List.singleton_append]

end Scan

/-- Every occurrence of a text is cut into the given tokens, if it ends where words end. -/
def Scans (s : String) (ts : List Token) : Prop :=
  ∀ rest, breaks rest → scan [] (s.toList ++ rest) = ts ++ scan [] rest

/-- A text has one list of tokens. -/
theorem Scans.unique {s : String} {ts us : List Token} (h : Scans s ts) (k : Scans s us) :
    ts = us := by
  have whole := (h [] rfl).symm.trans (k [] rfl)
  simpa [scan, ended] using whole

theorem scans_word {w : String} (nonempty : w ≠ "")
    (h : ∀ c ∈ w.toList, c ≠ ' ' ∧ ¬ isMark c ∧ c ≠ '"') : Scans w [ofWord w] := by
  intro rest apart
  have plain : '"' ∉ w.toList := fun quote => (h _ quote).2.2 rfl
  rw [scan_append plain apart, scan_word h, List.nil_append]
  cases chars : w.toList with
  | nil => exact absurd (String.toList_eq_nil_iff.1 chars) nonempty
  | cons c cs => rw [ended, ← chars, String.ofList_toList]

theorem scans_str {s : String} (plain : '"' ∉ s.toList) : Scans ("\"" ++ s ++ "\"") [.str s] := by
  intro rest _
  simp only [String.toList_append, List.append_assoc]
  change scanString [] (s.toList ++ '"' :: rest) = _
  rw [scanString_quote plain, List.nil_append, String.ofList_toList]
  rfl

/-- Tokens in parentheses, unless they can stand without them. -/
def enclosed (atomic : Bool) (ts : List Token) : List Token :=
  if atomic then ts else .symbol .lparen :: (ts ++ [.symbol .rparen])

theorem Scans.parenthesized {s : String} {ts : List Token} (h : Scans s ts) (atomic : Bool) :
    Scans (parenthesized atomic s) (enclosed atomic ts) := by
  cases atomic with
  | true => exact h
  | false =>
    intro rest _
    have inner : scan [] (s.toList ++ ')' :: rest) = ts ++ .symbol .rparen :: scan [] rest :=
      h (')' :: rest) rfl
    simp only [Vernacular.parenthesized, Bool.false_eq_true, if_false, String.toList_append,
      List.append_assoc]
    change .symbol .lparen :: scan [] (s.toList ++ ')' :: rest) = _
    rw [inner]
    simp [enclosed]

theorem digit_of_isNat {x : String} (h : x.isNat) : ∃ c ∈ x.toList.head?, c.isDigit := by
  obtain ⟨nonempty, digits, -, start, -⟩ := String.isNat_iff.1 h
  cases chars : x.toList with
  | nil => exact absurd (String.toList_eq_nil_iff.1 chars) nonempty
  | cons c cs =>
    rw [chars] at digits start
    refine ⟨c, rfl, (digits c (List.mem_cons_self ..)).resolve_right ?_⟩
    rintro rfl
    exact start rfl

theorem digit_of_isInt {x : String} (h : x.isInt) : ∃ c ∈ x.toList, c.isDigit := by
  rcases String.isInt_iff.1 h with number | ⟨t, rfl, number⟩
  · obtain ⟨c, first, digit⟩ := digit_of_isNat number
    exact ⟨c, List.mem_of_mem_head? first, digit⟩
  · obtain ⟨c, first, digit⟩ := digit_of_isNat number
    refine ⟨c, ?_, digit⟩
    rw [String.toList_append]
    exact List.mem_append_right _ (List.mem_of_mem_head? first)

theorem digit_of_repr (n : Int) : ∃ c ∈ n.repr.toList, c.isDigit := by
  refine digit_of_isInt ?_
  rw [← String.isSome_toInt?, Int.toInt?_repr, Option.isSome_some]

end Token

namespace Identifier

open Token (isMark ofWord Scans scans_word)

def isNameChar (c : Char) : Bool :=
  c.isAlphanum || c = '_' || c = '\'' || 128 ≤ c.toNat

/-- The names that can be told apart from all else in a written text. -/
structure Legible (x : String) : Prop where
  nonempty : x ≠ ""
  chars : ∀ c ∈ x.toList, isNameChar c
  start : ∀ c ∈ x.toList.head?, ¬ c.isDigit
  free : ∀ k : Symbol, k.text ≠ x

instance : DecidablePred Legible := fun x =>
  decidable_of_iff
    (x ≠ "" ∧ x.toList.all isNameChar ∧ x.toList.head?.all (!·.isDigit) ∧
      Symbol.all.all (·.text ≠ x))
    ⟨fun h => ⟨h.1, List.all_eq_true.1 h.2.1, by simpa [Option.all_eq_true] using h.2.2.1,
        fun k => by simpa using List.all_eq_true.1 h.2.2.2 k k.mem_all⟩,
      fun h => ⟨h.nonempty, List.all_eq_true.2 h.chars, by simpa [Option.all_eq_true] using h.start,
        List.all_eq_true.2 fun k _ => by simpa using h.free k⟩⟩

-- the symbols that are written like names are reserved words, and the lone underscore
example : ∀ k ∈ Symbol.all, k.text.toList.all isNameChar →
    isReserved k.text ∨ k.text = "_" := by decide

theorem isNameChar_plain {c : Char} (h : isNameChar c) : c ≠ ' ' ∧ ¬ isMark c ∧ c ≠ '"' := by
  have others : ∀ c ∈ ' ' :: '"' :: Token.marks, ¬ isNameChar c := by
    simp [Token.marks, isNameChar]
  refine ⟨?_, fun mark => ?_, ?_⟩
  · rintro rfl
    exact others _ (by decide) h
  · have listed : c ∈ Token.marks := List.contains_iff_mem.1 mark
    exact others c (List.mem_cons_of_mem _ (List.mem_cons_of_mem _ listed)) h
  · rintro rfl
    exact others _ (by decide) h

namespace Legible

variable {x : String}

theorem isInt_eq_false (h : Legible x) : x.isInt = false := by
  rw [← Bool.not_eq_true, String.isInt_iff]
  rintro (number | ⟨t, rfl, -⟩)
  · obtain ⟨c, first, digit⟩ := Token.digit_of_isNat number
    exact h.start c first digit
  · exact absurd (h.chars '-' (by simp)) (by decide)

theorem ofWord_eq (h : Legible x) : ofWord x = .name x := by
  rw [ofWord, Symbol.ofText?_eq_none h.free, String.toInt?_eq_none_iff.2 h.isInt_eq_false]

theorem scans (h : Legible x) : Scans x [.name x] := by
  have word := scans_word h.nonempty fun c hc => isNameChar_plain (h.chars c hc)
  rwa [h.ofWord_eq] at word

end Legible

end Identifier

namespace Token

theorem scans_underscore : Scans "_" [.symbol .underscore] := by
  refine scans_word (by decide) fun c hc => Identifier.isNameChar_plain ?_
  obtain rfl : c = '_' := by simpa using hc
  rfl

theorem repr_plain {n : Int} {c : Char} (h : c ∈ n.repr.toList) :
    c ≠ ' ' ∧ ¬ isMark c ∧ c ≠ '"' := by
  have digits : ∀ k : Nat, c ∈ k.repr.toList → Identifier.isNameChar c := by
    intro k hc
    rw [Nat.toList_repr] at hc
    have digit := Nat.isDigit_of_mem_toDigits (by omega) (by omega) hc
    simp [Identifier.isNameChar, Char.isAlphanum, digit]
  rw [Int.repr_eq_if] at h
  split at h
  · exact Identifier.isNameChar_plain (digits _ h)
  · rw [String.toList_append] at h
    rcases List.mem_append.1 h with sign | digit
    · obtain rfl : c = '-' := by simpa using sign
      decide
    · exact Identifier.isNameChar_plain (digits _ digit)

theorem ofWord_repr (n : Int) : ofWord n.repr = .num n := by
  have symbols : ∀ k : Symbol, k.text.toList.all (!·.isDigit) := by
    intro k
    cases k <;> rfl
  have other : ∀ k : Symbol, k.text ≠ n.repr := by
    intro k same
    obtain ⟨c, mem, digit⟩ := digit_of_repr n
    have free := List.all_eq_true.1 (symbols k) c (same ▸ mem)
    simp [digit] at free
  rw [ofWord, Symbol.ofText?_eq_none other, Int.toInt?_repr]

theorem scans_decimal (n : Int) : Scans (decimal (some n)) [.num n] := by
  have nonempty : n.repr ≠ "" := by
    intro empty
    obtain ⟨c, mem, -⟩ := digit_of_repr n
    rw [empty] at mem
    cases mem
  have word := scans_word nonempty fun c hc => repr_plain hc
  rwa [ofWord_repr] at word

end Token

end Vernacular
