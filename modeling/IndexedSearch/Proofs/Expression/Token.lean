import IndexedSearch.Expression.Level
import Mathlib.Data.List.SplitBy

/-!
# Tokens of expressions

The store reads an expression token by token: placeholders, words, comparison signs and
punctuation. A token is a run of characters as long as possible, so that `#n10` is one placeholder
and not `#n1` before a digit. Texts with a blank or a punctuation mark between them are scanned
apart. This is how the tokens of a text are put together from those of its parts.
-/

namespace IndexedSearch

/-- The operator of a spelling. -/
def Filter.Operator.ofSymbol? (text : String) : Option Operator :=
  all.find? fun operator ↦ operator.symbol = text

end IndexedSearch

namespace IndexedSearch.Expression

open IndexedSearch.Filter (Operator)

/-- A piece of an expression. A placeholder is kept as it is spelled. -/
inductive Token where
  | name (placeholder : String)
  | value (placeholder : String)
  | operator (operator : Operator)
  | connective (connective : Connective)
  | opening
  | closing
  | comma
  | dot
  | unknown (text : String)
deriving DecidableEq

namespace Token

/-- The placeholder of a name. -/
def name? : Token → Option String
  | name placeholder => some placeholder
  | _ => none

/-- The placeholder of an operand. -/
def value? : Token → Option String
  | value placeholder => some placeholder
  | _ => none

/-- The token of a run of characters. A blank is none. -/
def ofRun? : List Char → Option Token
  | [' '] => none
  | ['('] => some opening
  | [')'] => some closing
  | [','] => some comma
  | ['.'] => some dot
  | ['A', 'N', 'D'] => some (connective .and)
  | ['O', 'R'] => some (connective .or)
  | '#' :: rest => some (name (String.ofList ('#' :: rest)))
  | ':' :: rest => some (value (String.ofList (':' :: rest)))
  | run =>
    match Operator.ofSymbol? (String.ofList run) with
    | some known => some (operator known)
    | none => some (unknown (String.ofList run))

end Token

/-- A character of a word, and of a placeholder behind its first character. -/
def isWordChar (c : Char) : Bool := c.isAlphanum || c = '_'

/-- A character of a comparison sign. -/
def isComparisonChar (c : Char) : Bool := c = '<' || c = '=' || c = '>'

/-- The second of two neighbours belongs to the token of the first. -/
def goesOn (c next : Char) : Bool :=
  isWordChar next && (isWordChar c || c = '#' || c = ':') ||
    isComparisonChar next && isComparisonChar c

/-- The tokens of a text from left to right. -/
def scan (text : String) : List Token := (text.toList.splitBy goesOn).filterMap Token.ofRun?

/-! ## Scanning apart -/

/-- The text, put between two others, is scanned apart from both. -/
def Cuts (text : String) (tokens : List Token) : Prop :=
  ∀ before after, scan (before ++ text ++ after) = scan before ++ tokens ++ scan after

/-- A blank or a punctuation mark does not go on with a neighbour. -/
theorem cuts_of_mem {c : Char} (h : c ∈ [' ', '(', ')', ',', '.']) :
    Cuts (String.ofList [c]) (Token.ofRun? [c]).toList := by
  intro before after
  have hapart (other : Char) : goesOn other c = false ∧ goesOn c other = false := by
    have hc : isWordChar c = false ∧ isComparisonChar c = false ∧ c ≠ '#' ∧ c ≠ ':' := by
      simp only [List.mem_cons, List.not_mem_nil, or_false] at h
      rcases h with rfl | rfl | rfl | rfl | rfl <;> decide
    simp [goesOn, hc]
  have hbefore : List.splitBy goesOn (before.toList ++ c :: after.toList) =
      List.splitBy goesOn before.toList ++ List.splitBy goesOn (c :: after.toList) :=
    List.splitBy_append_cons _ fun other _ ↦ (hapart other).1
  have hafter : List.splitBy goesOn ([c] ++ after.toList) =
      List.splitBy goesOn [c] ++ List.splitBy goesOn after.toList := by
    apply List.splitBy_append
    intro x hx y _
    rw [List.getLast?_singleton, Option.mem_some_iff] at hx
    subst hx
    exact (hapart y).2
  have hsingle : List.splitBy goesOn [c] = [[c]] :=
    List.splitBy_of_isChain (by simp) (List.isChain_singleton c)
  have hruns : List.splitBy goesOn (before ++ String.ofList [c] ++ after).toList =
      List.splitBy goesOn before.toList ++ ([[c]] ++ List.splitBy goesOn after.toList) := by
    calc
      _ = List.splitBy goesOn (before.toList ++ c :: after.toList) := by simp
      _ = List.splitBy goesOn before.toList ++ List.splitBy goesOn ([c] ++ after.toList) := hbefore
      _ = _ := by rw [hafter, hsingle]
  rw [scan, hruns]
  cases hrun : Token.ofRun? [c] <;> simp [scan, hrun]

/-- A word between two texts that cut. -/
theorem Cuts.append {left right : String} {before after : List Token} (hleft : Cuts left before)
    (hright : Cuts right after) (word : String) :
    Cuts (left ++ word ++ right) (before ++ scan word ++ after) := by
  intro first last
  calc
    _ = scan (first ++ left ++ word ++ right ++ last) := by simp only [String.append_assoc]
    _ = scan first ++ before ++ scan word ++ after ++ scan last := by rw [hright, hleft]
    _ = _ := by simp only [List.append_assoc]

theorem scan_empty : scan "" = [] := rfl

theorem Cuts.scan_append {text : String} {tokens : List Token} (h : Cuts text tokens)
    (before : String) : scan (before ++ text) = scan before ++ tokens := by
  simpa [scan_empty] using h before ""

theorem Cuts.append_scan {text : String} {tokens : List Token} (h : Cuts text tokens)
    (after : String) : scan (text ++ after) = tokens ++ scan after := by
  simpa [scan_empty] using h "" after

/-- Joined parts are scanned apart if the text between them cuts. -/
theorem Cuts.scan_intercalate {text : String} {tokens : List Token} (h : Cuts text tokens)
    (parts : List String) :
    scan (text.intercalate parts) = tokens.intercalate (parts.map scan) := by
  induction parts with
  | nil => simp [scan_empty]
  | cons part rest ih =>
    cases rest with
    | nil => simp
    | cons next rest =>
      rw [String.intercalate_cons_cons, h, ih]
      simp [List.intercalate]

theorem cuts_blank : Cuts " " [] := cuts_of_mem (by decide)

theorem cuts_dot : Cuts "." [.dot] := cuts_of_mem (by decide)

theorem cuts_opening : Cuts "(" [.opening] := cuts_of_mem (by decide)

theorem cuts_closing : Cuts ")" [.closing] := cuts_of_mem (by decide)

theorem cuts_comma : Cuts ", " [.comma] :=
  (cuts_of_mem (c := ',') (by decide)).append cuts_blank ""

/-- A word with a blank on either side. -/
theorem cuts_word (word : String) : Cuts (" " ++ word ++ " ") (scan word) := by
  simpa using cuts_blank.append cuts_blank word

/-! ## Placeholders, operators and connectives -/

/-- Numbers are read off their digits. -/
theorem repr_inj {m n : Nat} (h : m.repr = n.repr) : m = n := by
  have hdigits := congrArg (fun text ↦ Nat.ofDigitChars 10 text.toList 0) h
  simpa only [Nat.toList_repr, Nat.ofDigitChars_ten_toDigits] using hdigits

theorem namePlaceholder_injective : Function.Injective namePlaceholder := by
  intro m n h
  exact repr_inj ((String.append_right_inj "#n").1 h)

theorem valuePlaceholder_injective : Function.Injective valuePlaceholder := by
  intro m n h
  exact repr_inj ((String.append_right_inj ":v").1 h)

/-- A sign, a letter and digits make a single run. -/
theorem splitBy_placeholder {sign letter : Char} (hsign : sign = '#' ∨ sign = ':')
    (hletter : isWordChar letter = true) (index : Nat) :
    List.splitBy goesOn (sign :: letter :: index.repr.toList) =
      [sign :: letter :: index.repr.toList] := by
  have hword : ∀ c ∈ letter :: index.repr.toList, isWordChar c = true := by
    intro c hc
    rw [List.mem_cons, Nat.toList_repr] at hc
    rcases hc with rfl | hc
    · exact hletter
    · have hdigit : c.isDigit := Nat.isDigit_of_mem_toDigits (by decide) (by decide) hc
      simp [isWordChar, Char.isAlphanum, hdigit]
  have hchain : List.IsChain (fun c next ↦ goesOn c next = true)
      (letter :: index.repr.toList) := by
    apply List.Pairwise.isChain
    apply List.pairwise_of_forall_mem_list
    intro c hc next hnext
    simp [goesOn, hword c hc, hword next hnext]
  have hfirst : goesOn sign letter = true := by
    rcases hsign with rfl | rfl <;> simp [goesOn, hletter]
  exact List.splitBy_of_isChain (by simp) (List.isChain_cons_cons.2 ⟨hfirst, hchain⟩)

theorem scan_namePlaceholder (index : Nat) :
    scan (namePlaceholder index) = [.name (namePlaceholder index)] := by
  have htext : namePlaceholder index = String.ofList ('#' :: 'n' :: index.repr.toList) := by
    simp [namePlaceholder, ← String.toList_inj]
  rw [htext, scan, String.toList_ofList, splitBy_placeholder (.inl rfl) (by decide)]
  rfl

theorem scan_valuePlaceholder (index : Nat) :
    scan (valuePlaceholder index) = [.value (valuePlaceholder index)] := by
  have htext : valuePlaceholder index = String.ofList (':' :: 'v' :: index.repr.toList) := by
    simp [valuePlaceholder, ← String.toList_inj]
  rw [htext, scan, String.toList_ofList, splitBy_placeholder (.inr rfl) (by decide)]
  rfl

theorem scan_symbol (operator : Operator) : scan operator.symbol = [.operator operator] := by
  cases operator <;> decide

theorem cuts_connective (connective : Connective) :
    Cuts connective.text [.connective connective] := by
  cases connective with
  | and => exact cuts_word "AND"
  | or => exact cuts_word "OR"

end IndexedSearch.Expression
