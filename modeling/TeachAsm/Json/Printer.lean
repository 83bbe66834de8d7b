import TeachAsm.Json.Value

/-!
# Writing JSON

The text is ASCII: every other character is written as one or two `\u` escapes of UTF-16 units,
and a surrogate that stands alone as one.
There is a form on one line and one with a line per item and two columns of indentation.
-/

namespace TeachAsm.Json

def escaped : CodePoint → List Char
  | .surrogate n => unitEscape (0xD800 + n)
  | .char c =>
    let n := c.toNat
    if c = '"' ∨ c = '\\' then ['\\', c]
    else if c = '\n' then ['\\', 'n']
    else if c = '\r' then ['\\', 'r']
    else if c = '\t' then ['\\', 't']
    else if n = 0x08 then ['\\', 'b']
    else if n = 0x0C then ['\\', 'f']
    else if 0x20 ≤ n ∧ n ≤ 0x7E then [c]
    else if n < 0x10000 then unitEscape n
    else
      unitEscape (0xD800 + (n - 0x10000) / 0x400) ++ unitEscape (0xDC00 + (n - 0x10000) % 0x400)

def renderString (s : Text) : List Char := '"' :: s.flatMap escaped ++ ['"']

def renderReal (x : Binary64) : List Char := realText "NaN".toList "Infinity".toList x

mutual

/-- The form on one line. -/
def render : Json → List Char
  | null => "null".toList
  | bool b => (if b then "true" else "false").toList
  | int n => Radix.decimal.render n
  | real x => renderReal x
  | str s => renderString s
  | arr items => '[' :: renderItems items
  | obj members => '\x7b' :: renderMembers members

def renderItems : List Json → List Char
  | [] => [']']
  | [a] => render a ++ [']']
  | a :: rest => render a ++ ',' :: ' ' :: renderItems rest

def renderMembers : List (Text × Json) → List Char
  | [] => ['\x7d']
  | [(k, a)] => renderString k ++ ':' :: ' ' :: render a ++ ['\x7d']
  | (k, a) :: rest =>
    renderString k ++ ':' :: ' ' :: render a ++ ',' :: ' ' :: renderMembers rest

end

def newLine (depth : Nat) : List Char := '\n' :: List.replicate (2 * depth) ' '

mutual

/-- The form with one item a line, at a depth of nesting. -/
def layOut (depth : Nat) : Json → List Char
  | null => "null".toList
  | bool b => (if b then "true" else "false").toList
  | int n => Radix.decimal.render n
  | real x => renderReal x
  | str s => renderString s
  | arr [] => ['[', ']']
  | arr items => '[' :: layOutItems (depth + 1) items ++ newLine depth ++ [']']
  | obj [] => ['\x7b', '\x7d']
  | obj members => '\x7b' :: layOutMembers (depth + 1) members ++ newLine depth ++ ['\x7d']

def layOutItems (depth : Nat) : List Json → List Char
  | [] => []
  | [a] => newLine depth ++ layOut depth a
  | a :: rest => newLine depth ++ layOut depth a ++ ',' :: layOutItems depth rest

def layOutMembers (depth : Nat) : List (Text × Json) → List Char
  | [] => []
  | [(k, a)] => newLine depth ++ renderString k ++ ':' :: ' ' :: layOut depth a
  | (k, a) :: rest =>
    newLine depth ++ renderString k ++ ':' :: ' ' :: layOut depth a ++
      ',' :: layOutMembers depth rest

end

end TeachAsm.Json
