import TeachAsm.Check.Logic
import TeachAsm.Journal
import TeachAsm.Text.Quoted

/-!
# Analysis of a document

The lines of a document are resolved and laid out, and then pass through spelling, form and logic
under one budget. The label report ends the answer and is not bounded.
-/

namespace TeachAsm

structure Analysis where
  lines : List Line := []
  resolution : Resolution := {}
  memory : Memory := {}
  spelling : List Diagnostic := []
  form : List Diagnostic := []
  logic : List Diagnostic := []
  labels : List Diagnostic := []
  budget : Budget
deriving DecidableEq

namespace Analysis

def gated (a : Analysis) : List Diagnostic := a.spelling ++ a.form ++ a.logic

def diagnostics (a : Analysis) : List Diagnostic := a.gated ++ a.labels

def check (lines : List Line) (r : Resolution) (m : Memory) (budget : Budget) :
    Except Fault Analysis := do
  let spelling := checkSpelling { budget } lines
  let form ← checkForm { budget := spelling.budget } lines m.image
  let logic ← checkLogic { budget := form.budget } lines m.image
  return { lines, resolution := r, memory := m
           spelling := spelling.diagnostics
           form := form.diagnostics
           logic := logic.diagnostics
           labels := labelReport r m.unused
           budget := logic.budget }

/-- What is noted about an analysis that is done. The note tells the limit. -/
def record (a : Analysis) : Except Fault Record :=
  match Radix.write? a.budget.limit with
  | none => .error .unwritable
  | some limit =>
    let logic := a.logic.length + a.labels.length
    .ok ⟨.debug, .analysis, s!"Analyzed {a.lines.length} lines: {a.spelling.length} spelling, " ++
      s!"{a.form.length} syntax, {logic} logic diagnostics " ++
      "(budget " ++ Radix.decimal.text a.budget.count ++ "/" ++ limit ++ ")"⟩

/-- Analyse a document with a limit on the number of problems. The empty document has no lines. -/
def run (limit : Int) (text : Text) : Except Fault Analysis :=
  if text.isEmpty then .ok { budget := { limit } }
  else do
    let lines := sourceLines text
    let r ← (resolve? lines).mapError .undeclared
    let a ← check lines r (load lines r) { limit }
    let _ ← a.record
    return a

end Analysis

def analyze (limit : Int) (text : Text) : Except Fault (List Diagnostic) :=
  (Analysis.run limit text).map Analysis.diagnostics

def Resolution.record (r : Resolution) : Record :=
  ⟨.debug, .symbols, s!"Pass 1: {r.symbols.size} labels, {r.duplicates.size} duplicates, " ++
    s!"{r.invalid.size} invalid"⟩

def droppedRecord (address : Int) (c : Cell) : Record :=
  ⟨.debug, .memory, "Dropping write past end of memory at " ++
    Radix.decimal.text address ++ ": " ++ Text.ofChars (Text.quoted c.text)⟩

def Memory.records (m : Memory) : List Record :=
  m.dropped.map (fun w => droppedRecord w.1 w.2) ++
    [⟨.debug, .memory, s!"Pass 2: {m.image.lines.size} cells written, " ++
      s!"{m.unused.size} unused labels"⟩]

/-- The journal of the analysis of a document. An analysis that fails leaves what it noted before
it failed. -/
def analysisJournal (limit : Int) (text : Text) : List Record :=
  if text.isEmpty then []
  else
    let lines := sourceLines text
    match resolve? lines with
    | .error _ => []
    | .ok r =>
      let m := load lines r
      r.record :: m.records ++
        match (Analysis.check lines r m { limit }).bind Analysis.record with
        | .ok record => [record]
        | .error _ => []

end TeachAsm
