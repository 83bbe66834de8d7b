import TeachAsm.Text.Basic

/-!
# Text for and from files and terminals

Printed lines lose the escape sequences that colour a terminal. Text from a file has one kind of
line ending.
-/

namespace TeachAsm.CommandLine

def escapeChar : Char := Char.ofNat 0x1B

def isParameter (c : Char) : Bool := c == ';' || c == '?' || ('0' ≤ c && c ≤ '9')

def isFinal (c : Char) : Bool := ('A' ≤ c && c ≤ 'Z') || ('a' ≤ c && c ≤ 'z')

/-- Drop sequences of an escape, a bracket, parameters and a letter. `pending` is the start of a
sequence and `written` what was kept, both in reverse. -/
def dropEscapes (pending written : List Char) : List Char → List Char
  | [] => (pending ++ written).reverse
  | c :: rest =>
    if c = escapeChar then dropEscapes [c] (pending ++ written) rest
    else match pending with
      | [] => dropEscapes [] (c :: written) rest
      | [_] =>
        if c = '[' then dropEscapes (c :: pending) written rest
        else dropEscapes [] (c :: (pending ++ written)) rest
      | _ =>
        if isParameter c then dropEscapes (c :: pending) written rest
        else if isFinal c then dropEscapes [] written rest
        else dropEscapes [] (c :: (pending ++ written)) rest

def plain (s : String) : String := String.ofList (dropEscapes [] [] s.toList)

/-- A carriage return, alone or before a line feed, becomes a line feed. `written` is in reverse,
and `returned` tells that the last character read was a carriage return. -/
def unifyNewlines (returned : Bool) (written : List Char) : List Char → List Char
  | [] => written.reverse
  | c :: rest =>
    if c = '\r' then unifyNewlines true ('\n' :: written) rest
    else if c = '\n' && returned then unifyNewlines false written rest
    else unifyNewlines false (c :: written) rest

end TeachAsm.CommandLine
