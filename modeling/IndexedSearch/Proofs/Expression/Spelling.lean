import IndexedSearch.Proofs.Expression.Token

/-!
# The tokens of levels

A level whose names and operands are placeholders has a spelling as tokens, in which every part
stands where its text does. Scanning the text of a numbered level gives this spelling, whatever the
numbers are and however many operands an operator has.
-/

namespace IndexedSearch.Expression

open IndexedSearch.Filter (Operator)

variable {α β ν ω : Type}

/-- An atom that refers to its names and operands by placeholders. -/
abbrev Written := Atom String String

/-- The atom with placeholders for its numbers. -/
def Numbered.written (atom : Numbered) : Written :=
  { path := atom.path.map namePlaceholder
    operator := atom.operator
    operands := atom.operands.map valuePlaceholder }

namespace Factor

mutual

/-- The factor with every atom changed. -/
def map (f : α → β) : Factor α → Factor β
  | atom value => atom (f value)
  | parens first rest => parens (map f first) (mapAll f rest)

/-- Factors with every atom changed. -/
def mapAll (f : α → β) : List (Connective × Factor α) → List (Connective × Factor β)
  | [] => []
  | (connective, factor) :: rest => (connective, map f factor) :: mapAll f rest

end

end Factor

/-- The level with every atom changed. -/
def Level.map (f : α → β) (level : Level α) : Level β :=
  ⟨level.first.map f, Factor.mapAll f level.rest⟩

/-! ## Spelling -/

/-- The tokens of a path. -/
def pathTokens (path : List String) : List Token :=
  [Token.dot].intercalate (path.map fun name ↦ [Token.name name])

/-- The tokens of operands, each by itself. -/
def operandTokens (operands : List String) : List (List Token) :=
  operands.map fun operand ↦ [Token.value operand]

/-- The tokens of an atom. -/
def Written.tokens (atom : Written) : List Token :=
  match atom.operator with
  | .eq | .ne | .lt | .le | .gt | .ge =>
    pathTokens atom.path ++ [.operator atom.operator] ++
      [Token.comma].intercalate (operandTokens atom.operands)
  | .between =>
    pathTokens atom.path ++ [.operator .between] ++
      [Token.connective .and].intercalate (operandTokens atom.operands)
  | .isIn =>
    pathTokens atom.path ++ [.operator .isIn, .opening] ++
      [Token.comma].intercalate (operandTokens atom.operands) ++ [.closing]
  | .beginsWith | .contains | .exists | .notExists =>
    [.operator atom.operator, .opening] ++
      [Token.comma].intercalate (pathTokens atom.path :: operandTokens atom.operands) ++ [.closing]

namespace Factor

mutual

/-- The tokens of a factor. -/
def tokens : Factor Written → List Token
  | atom value => value.tokens
  | parens first rest => .opening :: tokens first ++ restTokens rest ++ [.closing]

/-- The tokens of factors, each behind its connective. -/
def restTokens : List (Connective × Factor Written) → List Token
  | [] => []
  | (connective, factor) :: rest => .connective connective :: tokens factor ++ restTokens rest

end

end Factor

/-- The tokens of a level. -/
def Level.tokens (level : Level Written) : List Token :=
  level.first.tokens ++ Factor.restTokens level.rest

/-! ## Scanning texts -/

theorem scan_pathText (path : List Nat) :
    scan (pathText path) = pathTokens (path.map namePlaceholder) := by
  rw [pathText, cuts_dot.scan_intercalate, pathTokens, List.map_map, List.map_map]
  congr 1
  apply List.map_congr_left
  intro index _
  exact scan_namePlaceholder index

theorem map_scan_valuePlaceholder (operands : List Nat) :
    (operands.map valuePlaceholder).map scan = operandTokens (operands.map valuePlaceholder) := by
  rw [operandTokens, List.map_map, List.map_map]
  apply List.map_congr_left
  intro index _
  exact scan_valuePlaceholder index

theorem scan_between (path operands : String) :
    scan (path ++ " BETWEEN " ++ operands) = scan path ++ [.operator .between] ++ scan operands :=
  cuts_word "BETWEEN" path operands

theorem scan_isIn (path operands : String) :
    scan (path ++ " IN (" ++ operands ++ ")") =
      scan path ++ [.operator .isIn, .opening] ++ scan operands ++ [.closing] := by
  have hmiddle : Cuts " IN (" [.operator .isIn, .opening] :=
    (cuts_word "IN").append cuts_opening ""
  rw [cuts_closing.scan_append, hmiddle]

theorem scan_comparison (operator : Operator) (path : List Nat) (operands : List Nat) :
    scan (pathText path ++ " " ++ operator.symbol ++ " " ++
        ", ".intercalate (operands.map valuePlaceholder)) =
      pathTokens (path.map namePlaceholder) ++ [.operator operator] ++
        [Token.comma].intercalate (operandTokens (operands.map valuePlaceholder)) := by
  have htext : pathText path ++ " " ++ operator.symbol ++ " " ++
      ", ".intercalate (operands.map valuePlaceholder) =
      pathText path ++ (" " ++ operator.symbol ++ " ") ++
        ", ".intercalate (operands.map valuePlaceholder) := by
    simp only [String.append_assoc]
  calc
    _ = scan (pathText path) ++ scan operator.symbol ++
        scan (", ".intercalate (operands.map valuePlaceholder)) := by
      rw [htext, cuts_word]
    _ = _ := by
      rw [scan_pathText, scan_symbol, cuts_comma.scan_intercalate, map_scan_valuePlaceholder]

theorem scan_call (operator : Operator) (path : List Nat) (operands : List Nat) :
    scan (operator.symbol ++ "(" ++
        ", ".intercalate (pathText path :: operands.map valuePlaceholder) ++ ")") =
      [.operator operator, .opening] ++
        [Token.comma].intercalate
          (pathTokens (path.map namePlaceholder) ::
            operandTokens (operands.map valuePlaceholder)) ++
        [.closing] := by
  calc
    _ = scan operator.symbol ++ [.opening] ++
        [Token.comma].intercalate
          (scan (pathText path) :: (operands.map valuePlaceholder).map scan) ++
        [.closing] := by
      rw [cuts_closing.scan_append, cuts_opening, cuts_comma.scan_intercalate, List.map_cons]
    _ = _ := by
      rw [scan_symbol, scan_pathText, map_scan_valuePlaceholder]
      rfl

/-- The text of an atom is scanned as its spelling. -/
theorem scan_atomText (atom : Numbered) : scan atom.text = atom.written.tokens := by
  rcases atom with ⟨path, operator, operands⟩
  cases operator with
  | eq | ne | lt | le | gt | ge => exact scan_comparison _ path operands
  | between =>
    have hand : Cuts " AND " [.connective .and] := cuts_connective .and
    rw [Numbered.text, scan_between, scan_pathText, hand.scan_intercalate,
      map_scan_valuePlaceholder]
    rfl
  | isIn =>
    rw [Numbered.text, scan_isIn, scan_pathText, cuts_comma.scan_intercalate,
      map_scan_valuePlaceholder]
    rfl
  | beginsWith | contains | «exists» | notExists => exact scan_call _ path operands

namespace Factor

mutual

theorem scan_text (factor : Factor Numbered) :
    scan factor.text = (factor.map Numbered.written).tokens := by
  cases factor with
  | atom value => exact scan_atomText value
  | parens first rest =>
    rw [text, cuts_closing.scan_append, scan_append_restText, cuts_opening.append_scan,
      scan_text first, map, tokens]
    rfl

theorem scan_append_restText (before : String) (rest : List (Connective × Factor Numbered)) :
    scan (before ++ restText rest) = scan before ++ restTokens (mapAll Numbered.written rest) := by
  match rest with
  | [] => simp [restText, restTokens, mapAll]
  | (connective, factor) :: rest =>
    have htext : before ++ restText ((connective, factor) :: rest) =
        before ++ connective.text ++ factor.text ++ restText rest := by
      simp only [restText, String.append_assoc]
    rw [htext, scan_append_restText _ rest, cuts_connective, scan_text factor, mapAll, restTokens]
    simp only [List.append_assoc, List.cons_append, List.nil_append]

end

end Factor

/-- The text of a level is scanned as its spelling. -/
theorem Level.scan_text (level : Level Numbered) :
    scan level.text = (level.map Numbered.written).tokens := by
  rw [Level.text, Factor.scan_append_restText, Factor.scan_text, Level.tokens, Level.map]

end IndexedSearch.Expression
