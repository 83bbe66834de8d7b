import TeachAsm.Line

/-!
# Completion

At a cursor an editor is offered the labels that contain the operand already written on the line,
and the words of the vocabulary that contain the word being typed.
-/

namespace TeachAsm

inductive CompletionKind where
  | label
  | keyword
deriving DecidableEq, Repr

def CompletionKind.code : CompletionKind → Nat
  | label => 12
  | keyword => 14

structure Completion where
  word : Text
  kind : CompletionKind
  detail : String
deriving DecidableEq, Repr

namespace Completion

def ofLabel (word : Text) : Completion := ⟨word, .label, "Label in this file"⟩

def vocabulary : List Completion :=
  Mnemonic.all.map (fun m => ⟨m.spelling, .keyword, m.description⟩) ++
    [⟨indirectMark, .keyword, indirectDescription⟩]

/-- What stands before the first separator of each line that has one. -/
def labels (lines : List Text) : List Text :=
  lines.filterMap fun line =>
    let stripped := Text.strip line
    if stripped.contains labelSeparator then
      some (Text.strip (Text.beforeFirst labelSeparator stripped))
    else none

def statementWords (line : Text) : List Text :=
  Text.words (Text.afterLast labelSeparator line)

/-- The start of a line up to a column; a negative column counts from the end, and no column is
the end. -/
def upTo (column : Option Int) (line : Text) : Text :=
  match column with
  | none => line
  | some n => if 0 ≤ n then line.take n.toNat else line.take (line.length + n).toNat

/-- The word that ends at the cursor, which is empty after a space, a tab or a separator. -/
def typedWord (before : Text) : Text :=
  match before.getLast? with
  | some c =>
    if c = ' ' ∨ c = '\t' ∨ c = labelSeparator then []
    else (statementWords before).getLast?.getD []
  | none => []

/-- The labels offered on a line: those that contain its second word. -/
def labelItems (lines : List Text) (current : Text) : List Completion :=
  match (statementWords current)[1]? with
  | some operand => ((labels lines).filter (Text.occursIn operand)).map ofLabel
  | none => []

def keywordItems (before : Text) : List Completion :=
  vocabulary.filter (fun item => Text.occursIn (typedWord before) item.word)

def onLine (lines : List Text) (current : Text) (column : Option Int) :
    List Completion :=
  labelItems lines current ++ keywordItems (upTo column current)

/-- The completions at a cursor, labels first. Outside the document there are none. -/
def suggest (text : Text) (line : Int) (column : Option Int) : List Completion :=
  let lines := Text.lines text
  if 0 ≤ line ∧ line < lines.length then
    onLine lines (Text.trimEnd (· == '\r') (lines.getD line.toNat [])) column
  else []

end Completion

end TeachAsm
