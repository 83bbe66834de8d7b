import TeachAsm.Text.Printable

/-!
# Quoted text

Text between quotes, with escapes for the quote, the backslash and characters that do not print.
-/

namespace TeachAsm.Text

def quotedPoint (quote : Char) : CodePoint → List Char
  | .surrogate n => unitEscape (0xD800 + n)
  | .char c =>
    if c = quote ∨ c = '\\' then ['\\', c]
    else if c = '\n' then ['\\', 'n']
    else if c = '\r' then ['\\', 'r']
    else if c = '\t' then ['\\', 't']
    else if isPrintable c then [c]
    else if c.toNat < 0x100 then '\\' :: 'x' :: hexDigits 2 c.toNat
    else if c.toNat < 0x10000 then unitEscape c.toNat
    else '\\' :: 'U' :: hexDigits 8 c.toNat

/-- Single quotes, or double quotes for a text that holds a single quote and no double one. -/
def quoteFor (s : Text) : Char :=
  if s.contains (.char '\'') && !s.contains (.char '"') then '"' else '\''

def quoted (s : Text) : List Char :=
  let quote := quoteFor s
  quote :: s.flatMap (quotedPoint quote) ++ [quote]

end TeachAsm.Text
