import TeachAsm.Proofs.Numerals
import TeachAsm.Proofs.Spacing

/-!
# Statements as they are written

The lines of a program by what they say: nothing, an origin, the end, or a statement that may have a
label. A line may be written with any blanks and with a comment behind it; it is read as the words
of what it says.
-/

namespace TeachAsm

inductive Sign where
  | absent
  | plus
  | minus
deriving DecidableEq

def Sign.text : Sign → Text
  | absent => []
  | plus => [.char '+']
  | minus => [.char '-']

def Sign.isMinus : Sign → Bool
  | minus => true
  | _ => false

structure Numeral where
  sign : Sign
  digits : Text
deriving DecidableEq

namespace Numeral

def text (n : Numeral) : Text := n.sign.text ++ n.digits

def value (n : Numeral) (r : Radix) : Int := withSign n.sign.isMinus (r.value n.digits)

/-- The digits are of the radix and not too many, and the value fits a word. -/
structure Fits (n : Numeral) (r : Radix) : Prop where
  nonempty : n.digits ≠ []
  short : n.digits.length ≤ digitLimit
  isDigit : ∀ c ∈ n.digits, r.isDigit c = true
  fits : fitsWord (n.value r) = true

variable {n : Numeral} {r : Radix}

instance : Decidable (n.Fits r) :=
  decidable_of_iff (n.digits ≠ [] ∧ n.digits.length ≤ digitLimit ∧
      (∀ c ∈ n.digits, r.isDigit c = true) ∧ fitsWord (n.value r) = true)
    ⟨fun h => ⟨h.1, h.2.1, h.2.2.1, h.2.2.2⟩,
      fun h => ⟨h.nonempty, h.short, h.isDigit, h.fits⟩⟩

theorem mem_text {c : CodePoint} (hc : c ∈ n.text) (h : n.Fits r) :
    c = .char '+' ∨ c = .char '-' ∨ r.isDigit c = true := by
  rcases List.mem_append.mp hc with hc | hc
  · cases hsign : n.sign with
    | absent =>
        rw [hsign] at hc
        cases hc
    | plus =>
        rw [hsign] at hc
        exact .inl (List.mem_singleton.mp hc)
    | minus =>
        rw [hsign] at hc
        exact .inr (.inl (List.mem_singleton.mp hc))
  · exact .inr (.inr (h.isDigit c hc))

theorem isWord_text (h : n.Fits r) : Text.IsWord n.text := by
  constructor
  · intro hnil
    exact h.nonempty (List.append_eq_nil_iff.mp hnil).2
  · intro c hc
    rcases mem_text hc h with rfl | rfl | hdigit
    · decide
    · decide
    · exact Radix.not_isBlank_of_isDigit hdigit

private theorem takeSign_text (h : n.Fits r) : takeSign n.text = (n.sign.isMinus, n.digits) := by
  obtain ⟨sign, digits⟩ := n
  cases sign with
  | absent => exact Radix.takeSign_of_digits h.isDigit
  | plus => rfl
  | minus => rfl

theorem decimalWord_text (h : n.Fits .decimal) :
    decimalWord n.text = .ok (some (n.value .decimal)) := by
  have hleft : Text.stripLeft n.text = n.text := by
    simpa using (isWord_text h).solid.stripLeft_eq []
  have hsign := takeSign_text h
  have hdigits := Radix.leadingDigits_of_takeSign hsign hleft h.isDigit
  have hread : Radix.decimal.read n.text = .ok (some (n.value .decimal)) := by
    rw [Radix.read, hdigits, if_neg (by simpa using h.short),
      Radix.leading?_of_takeSign hsign hleft h.nonempty h.isDigit]
    rfl
  rw [decimalWord, hread]
  simp [Except.map, h.fits]

theorem hexWord?_text (h : n.Fits .hexadecimal) :
    hexWord? n.text = some (n.value .hexadecimal) := by
  have hstrip : Text.strip n.text = n.text := by
    simpa using (isWord_text h).solid.strip_eq Text.blanks_nil Text.blanks_nil
  have hall : n.digits.all Radix.hexadecimal.isDigit = true := List.all_eq_true.mpr h.isDigit
  have hfits : fitsWord (withSign n.sign.isMinus (Radix.hexadecimal.value n.digits)) = true :=
    h.fits
  simp [hexWord?, hstrip, takeSign_text h, h.nonempty, hall, hfits, value]

end Numeral

def Radix.mnemonic : Radix → Mnemonic
  | decimal => .DEC
  | hexadecimal => .HEX

inductive Body where
  | plain (m : Mnemonic)
  | literal (r : Radix) (n : Numeral)
  | reference (m : Mnemonic) (operand : Text) (indirect : Bool)
deriving DecidableEq

namespace Body

def mnemonic : Body → Mnemonic
  | plain m => m
  | literal r _ => r.mnemonic
  | reference m _ _ => m

def operands : Body → List Text
  | plain _ => []
  | literal _ n => [n.text]
  | reference _ operand indirect => operand :: (if indirect then [indirectMark] else [])

end Body

structure Statement where
  label : Option Text
  body : Body
deriving DecidableEq

inductive Item where
  | blank
  | origin (digits : Text)
  | stop
  | statement (s : Statement)
deriving DecidableEq

namespace Item

def label? : Item → Option Text
  | statement s => s.label
  | _ => none

def mnemonic? : Item → Option Mnemonic
  | blank => none
  | origin _ => some .ORG
  | stop => some .END
  | statement s => some s.body.mnemonic

def operands : Item → List Text
  | origin digits => [digits]
  | statement s => s.body.operands
  | _ => []

end Item

/-- A label with its separator and a gap, if there is one, and the words of a statement. -/
inductive Code : Option Text → List Text → Text → Prop
  | bare {words : List Text} {body : Text} (spaced : Text.Spaced words body) :
      Code none words body
  | labelled (label : Text) {words : List Text} {gap body : Text} (separated : gap ≠ [])
      (blanks : Text.Blanks gap) (spaced : Text.Spaced words body) :
      Code (some label) words (label ++ labelSeparator :: (gap ++ body))

/-- The characters of a line that says the item. -/
inductive Written : Item → Text → Prop
  | blank {indent : Text} (blanks : Text.Blanks indent) : Written .blank indent
  | comment {indent : Text} {mark : CodePoint} (blanks : Text.Blanks indent)
      (isMark : mark ∈ commentMarks) (rest : Text) : Written .blank (indent ++ mark :: rest)
  | code {item : Item} {m : Mnemonic} {indent code tail comment : Text}
      (states : item.mnemonic? = some m) (indents : Text.Blanks indent)
      (isCode : Code item.label? (m.spelling :: item.operands) code) (trails : Text.Blanks tail)
      (isComment : comment = [] ∨ ∃ rest, comment = .char '/' :: rest) :
      Written item (indent ++ (code ++ (tail ++ comment)))

def labelWords (label? : Option Text) : List Text :=
  (label?.map (· ++ [labelSeparator])).toList

/-- Every item can be written, with one space between two words. -/
theorem Code.of_words {label? : Option Text} {first : Text} {rest : List Text}
    (h : ∀ word ∈ first :: rest, Text.IsWord word) :
    Code label? (first :: rest)
      (List.intercalate [.char ' '] (labelWords label? ++ first :: rest)) := by
  have hspaced := Text.spaced_intercalate h
  cases label? with
  | none => exact .bare hspaced
  | some label =>
      have hgap : Text.Blanks [.char ' '] := by decide
      have hcode := Code.labelled label (by simp) hgap hspaced
      simpa [labelWords, List.intercalate] using hcode

theorem Written.of_words {item : Item} {m : Mnemonic} {raw : Text} (indent tail comment : Text)
    (hblanks : Text.Blanks indent ∧ Text.Blanks tail)
    (hcomment : comment = [] ∨ ∃ rest, comment = .char '/' :: rest)
    (hm : item.mnemonic? = some m)
    (hwords : ∀ word ∈ m.spelling :: item.operands, Text.IsWord word)
    (hraw : raw = indent ++ (List.intercalate [.char ' ']
      (labelWords item.label? ++ m.spelling :: item.operands) ++ (tail ++ comment))) :
    Written item raw := by
  rw [hraw]
  exact .code hm hblanks.1 (.of_words hwords) hblanks.2 hcomment

def isPunctuation (c : CodePoint) : Bool := c == labelSeparator || commentMarks.contains c

/-- A word that can stand in a line without being cut. -/
def IsToken (s : Text) : Prop := Text.IsWord s ∧ ∀ c ∈ s, isPunctuation c = false

instance (s : Text) : Decidable (IsToken s) :=
  inferInstanceAs (Decidable (Text.IsWord s ∧ ∀ c ∈ s, isPunctuation c = false))

theorem isToken_spelling (m : Mnemonic) : IsToken m.spelling := by
  cases m <;> decide

private theorem not_isPunctuation_of_isBlank {c : CodePoint} (h : Text.isBlank c = true) :
    isPunctuation c = false := by
  have hmarks : ∀ mark ∈ labelSeparator :: commentMarks, Text.isBlank mark = false := by decide
  by_contra hpunctuation
  have hmem : c ∈ labelSeparator :: commentMarks := by
    simpa [isPunctuation, or_iff_not_imp_left] using hpunctuation
  rw [hmarks c hmem] at h
  cases h

theorem not_mem_of_not_isPunctuation {s : Text} (h : ∀ c ∈ s, isPunctuation c = false)
    {mark : CodePoint} (hmark : isPunctuation mark = true) : mark ∉ s := by
  intro hmem
  rw [h mark hmem] at hmark
  cases hmark

private theorem Text.Spaced.not_isPunctuation {words : List Text} {s : Text}
    (h : Text.Spaced words s) (htokens : ∀ word ∈ words, IsToken word) :
    ∀ c ∈ s, isPunctuation c = false := by
  induction h with
  | last _ => exact (htokens _ List.mem_cons_self).2
  | more _ _ blanks _ ih =>
      intro c hc
      rcases List.mem_append.mp hc with hc | hc
      · exact (htokens _ List.mem_cons_self).2 c hc
      · rcases List.mem_append.mp hc with hc | hc
        · exact not_isPunctuation_of_isBlank (blanks c hc)
        · exact ih (fun word hword => htokens word (List.mem_cons_of_mem _ hword)) c hc

private theorem isBlankOrComment_append {indent s : Text} (hindent : Text.Blanks indent)
    (hsolid : Text.Solid s) (hmarks : ∀ c ∈ s, c ∉ commentMarks) (tail : Text) :
    isBlankOrComment (indent ++ (s ++ tail)) = false := by
  rw [isBlankOrComment, Text.stripLeft_append hindent, hsolid.stripLeft_eq]
  obtain ⟨⟨c, rest, rfl, -⟩, -⟩ := hsolid
  have hc := hmarks c List.mem_cons_self
  simpa using hc

theorem stripComment_of_not_mem {s : Text} (h : ∀ c ∈ s, c ∉ commentMarks) :
    stripComment s = s := by
  have hnone : commentMarks.find? (fun mark => s.contains mark) = none := by
    rw [List.find?_eq_none]
    intro mark hmark hcontains
    exact h mark (List.contains_iff_mem.mp hcontains) hmark
  rw [stripComment, hnone]
  split <;> rfl

theorem stripComment_append_mark {s : Text} (h : ∀ c ∈ s, c ∉ commentMarks)
    (hstated : isBlankOrComment s = false) (rest : Text) :
    stripComment (s ++ .char '/' :: rest) = s := by
  have hcode : isBlankOrComment (s ++ .char '/' :: rest) = false := by
    rw [Bool.eq_false_iff]
    intro hblank
    rw [isBlankOrComment_of_isPrefix (List.prefix_append s _) hblank] at hstated
    cases hstated
  have hslash : commentMarks.find? (fun mark => (s ++ .char '/' :: rest).contains mark) =
      some (.char '/') := by
    apply List.find?_cons_of_pos
    simp
  rw [stripComment, hcode, if_neg Bool.false_ne_true, hslash]
  exact Text.beforeFirst_append (fun hmem => h (.char '/') hmem (by decide)) rest

private theorem stripComment_append {indent s tail comment : Text} (hindent : Text.Blanks indent)
    (hsolid : Text.Solid s) (hmarks : ∀ c ∈ s, c ∉ commentMarks) (htail : Text.Blanks tail)
    (hcomment : comment = [] ∨ ∃ rest, comment = .char '/' :: rest) :
    stripComment (indent ++ (s ++ (tail ++ comment))) = indent ++ (s ++ tail) := by
  have hfree : ∀ c ∈ indent ++ (s ++ tail), c ∉ commentMarks := by
    have hblank {c : CodePoint} (hc : Text.isBlank c = true) : c ∉ commentMarks := by
      have hpunctuation := not_isPunctuation_of_isBlank hc
      simp only [isPunctuation, Bool.or_eq_false_iff] at hpunctuation
      simpa using hpunctuation.2
    intro c hc
    rcases List.mem_append.mp hc with hc | hc
    · exact hblank (hindent c hc)
    · rcases List.mem_append.mp hc with hc | hc
      · exact hmarks c hc
      · exact hblank (htail c hc)
  rcases hcomment with rfl | ⟨rest, rfl⟩
  · rw [List.append_nil, stripComment_of_not_mem hfree]
  · have hcut := stripComment_append_mark hfree (isBlankOrComment_append hindent hsolid hmarks tail)
      rest
    simpa only [List.append_assoc] using hcut

def Item.IsLexical (item : Item) : Prop :=
  (∀ label, item.label? = some label → IsToken label) ∧ ∀ word ∈ item.operands, IsToken word

/-- How a line is read that says an item other than nothing. -/
structure Line.Shows (l : Line) (item : Item) (m : Mnemonic) : Prop where
  isBlank : l.isBlank = false
  hasLabel : l.hasLabel = item.label?.isSome
  label : ∀ label, item.label? = some label → l.label = label
  words : l.words = m.spelling :: item.operands
  textWords : Text.words l.stripped = labelWords item.label? ++ m.spelling :: item.operands

structure Code.Parts (label? : Option Text) (words : List Text) (code : Text) : Prop where
  solid : Text.Solid code
  marks : ∀ c ∈ code, c ∉ commentMarks
  hasLabel : code.contains labelSeparator = label?.isSome
  label : ∀ label, label? = some label →
    (Text.words (Text.beforeFirst labelSeparator code)).headD [] = label
  statement : Text.words (Text.strip (Text.afterLast labelSeparator code)) = words
  whole : Text.words code = labelWords label? ++ words

theorem Code.parts {label? : Option Text} {words : List Text} {code : Text}
    (h : Code label? words code) (hlabel : ∀ label, label? = some label → IsToken label)
    (hwords : ∀ word ∈ words, IsToken word) : Code.Parts label? words code := by
  have hmark {c : CodePoint} (hc : isPunctuation c = false) : c ∉ commentMarks := by
    simp only [isPunctuation, Bool.or_eq_false_iff] at hc
    simpa using hc.2
  cases h with
  | bare spaced =>
      have hfree := spaced.not_isPunctuation hwords
      have hcomma : labelSeparator ∉ code := not_mem_of_not_isPunctuation hfree (by decide)
      have hstrip : Text.strip code = code := by
        simpa using spaced.solid.strip_eq Text.blanks_nil Text.blanks_nil
      constructor
      · exact spaced.solid
      · exact fun c hc => hmark (hfree c hc)
      · simpa using hcomma
      · intro label hnone
        cases hnone
      · rw [Text.afterLast_of_not_mem hcomma, hstrip, spaced.words_eq]
      · exact spaced.words_eq
  | labelled label separated blanks spaced =>
      rename_i gap body
      have htoken := hlabel label rfl
      have hbody := spaced.not_isPunctuation hwords
      have hcomma : labelSeparator ∉ label := not_mem_of_not_isPunctuation htoken.2 (by decide)
      have hgap : ∀ c ∈ gap ++ body, isPunctuation c = false := by
        intro c hc
        rcases List.mem_append.mp hc with hc | hc
        · exact not_isPunctuation_of_isBlank (blanks c hc)
        · exact hbody c hc
      have hword : Text.IsWord (label ++ [labelSeparator]) := by
        constructor
        · simp
        · intro c hc
          rcases List.mem_append.mp hc with hc | hc
          · exact htoken.1.2 c hc
          · rw [List.mem_singleton.mp hc]
            decide
      have hassoc : label ++ labelSeparator :: (gap ++ body) =
          (label ++ [labelSeparator]) ++ (gap ++ body) := by simp
      constructor
      · rw [hassoc]
        exact hword.solid.of_append spaced.solid gap
      · intro c hc
        rcases List.mem_append.mp hc with hc | hc
        · exact hmark (htoken.2 c hc)
        · rcases List.mem_cons.mp hc with rfl | hc
          · decide
          · exact hmark (hgap c hc)
      · simp
      · intro first hfirst
        cases hfirst
        rw [Text.beforeFirst_append hcomma, Text.words_of_isWord htoken.1, List.headD_cons]
      · have hafter : labelSeparator ∉ gap ++ body :=
          not_mem_of_not_isPunctuation hgap (by decide)
        have hstrip := spaced.solid.strip_eq blanks Text.blanks_nil
        rw [List.append_nil] at hstrip
        rw [Text.afterLast_append hafter, hstrip, spaced.words_eq]
      · rw [hassoc, Text.words_append hword separated blanks, spaced.words_eq]
        rfl

theorem Written.isBlank {l : Line} (h : Written .blank l.raw) : l.isBlank = true := by
  have hraw : isBlankOrComment l.raw = true := by
    generalize l.raw = raw at h
    cases h with
    | blank blanks =>
        have hleft : Text.stripLeft raw = [] := List.dropWhile_eq_nil_iff.mpr blanks
        rw [isBlankOrComment, hleft]
    | comment blanks isMark rest =>
        rename_i indent mark
        have hmark : Text.isBlank mark = false := by
          by_contra hblank
          have hpunctuation := not_isPunctuation_of_isBlank (by simpa using hblank)
          simp [isPunctuation, isMark] at hpunctuation
        rw [isBlankOrComment, Text.stripLeft_append blanks]
        simp [Text.stripLeft, hmark, isMark]
    | code states => cases states
  exact Line.isBlank_of_raw hraw

theorem Written.shows {l : Line} {item : Item} {m : Mnemonic} (h : Written item l.raw)
    (hlexical : item.IsLexical) (hm : item.mnemonic? = some m) : l.Shows item m := by
  generalize hraw : l.raw = raw at h
  cases h with
  | blank => cases hm
  | comment => cases hm
  | code states indents isCode trails isComment =>
      rename_i m' indent code tail comment
      rw [states] at hm
      cases hm
      have hwords : ∀ word ∈ m.spelling :: item.operands, IsToken word := by
        intro word hword
        rcases List.mem_cons.mp hword with rfl | hword
        · exact isToken_spelling m
        · exact hlexical.2 word hword
      have hparts := isCode.parts hlexical.1 hwords
      have htext : l.text = indent ++ (code ++ tail) := by
        rw [Line.text, hraw]
        exact stripComment_append indents hparts.solid hparts.marks trails isComment
      have hstripped : l.stripped = code := by
        rw [Line.stripped, htext]
        exact hparts.solid.strip_eq indents trails
      constructor
      · rw [Line.isBlank, htext]
        exact isBlankOrComment_append indents hparts.solid hparts.marks tail
      · have hblank {blanks : Text} (h : Text.Blanks blanks) : labelSeparator ∉ blanks :=
          not_mem_of_not_isPunctuation (fun c hc => not_isPunctuation_of_isBlank (h c hc))
            (by decide)
        rw [Line.hasLabel, htext, ← hparts.hasLabel]
        simp [hblank indents, hblank trails]
      · intro label hlabel
        rw [Line.label, hstripped]
        exact hparts.label label hlabel
      · rw [Line.words, Line.statement, hstripped]
        exact hparts.statement
      · rw [hstripped]
        exact hparts.whole

end TeachAsm
