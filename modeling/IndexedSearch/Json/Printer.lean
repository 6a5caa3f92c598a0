import IndexedSearch.Json.Basic

/-!
# Compact JSON text

A value is printed without blanks, the fields of an object in the order in which they stand. A
string escapes the quote, the backslash and the control characters below U+0020, and nothing else.
-/

namespace IndexedSearch.Json

/-- The characters that stand for one character inside a quoted string. -/
def escapeChar (c : Char) : List Char :=
  if c = '"' then ['\\', '"']
  else if c = '\\' then ['\\', '\\']
  else if c = '\x08' then ['\\', 'b']
  else if c = '\t' then ['\\', 't']
  else if c = '\n' then ['\\', 'n']
  else if c = '\x0c' then ['\\', 'f']
  else if c = '\r' then ['\\', 'r']
  else if c.toNat < 32 then
    ['\\', 'u', '0', '0', Nat.digitChar (c.toNat / 16), Nat.digitChar (c.toNat % 16)]
  else [c]

/-- A quoted string. -/
def quote (text : String) : List Char :=
  '"' :: text.toList.flatMap escapeChar ++ ['"']

mutual

/-- The characters of a value. -/
def chars : Json → List Char
  | null => ['n', 'u', 'l', 'l']
  | bool true => ['t', 'r', 'u', 'e']
  | bool false => ['f', 'a', 'l', 's', 'e']
  | number value => value.chars
  | string text => quote text
  | array [] => ['[', ']']
  | array (item :: rest) => '[' :: item.chars ++ moreItems rest
  | object [] => ['\x7b', '\x7d']
  | object ((name, value) :: rest) =>
    '\x7b' :: quote name ++ ':' :: value.chars ++ moreFields rest

/-- The items of an array after the first one, each behind a comma, and the closing bracket. -/
def moreItems : List Json → List Char
  | [] => [']']
  | item :: rest => ',' :: item.chars ++ moreItems rest

/-- The fields of an object after the first one, each behind a comma, and the closing brace. -/
def moreFields : List (String × Json) → List Char
  | [] => ['\x7d']
  | (name, value) :: rest => ',' :: quote name ++ ':' :: value.chars ++ moreFields rest

end

/-- The text of a value. -/
def text (json : Json) : String := String.ofList json.chars

end IndexedSearch.Json
