import Mathlib.Data.List.Forall2
import TeachAsm.Proofs.Silence
import TeachAsm.Proofs.Statement

/-!
# Clean programs

A program is clean by what its lines say: its statements are valid, its labels are distinct and
used, no two statements share an address, and every memory reference leads to a literal. An analysis
of a clean program reports nothing, under any limit.
-/

namespace TeachAsm

structure IsPlainLabel (label : Text) : Prop where
  token : IsToken label
  short : label.length ≤ maxLabelLength
  unreserved : label ∉ reservedWords

theorem isPlainLabel_iff {label : Text} :
    IsPlainLabel label ↔ IsToken label ∧ isLabel label = true := by
  simp only [isLabel, Bool.and_eq_true, decide_eq_true_eq, Bool.not_eq_true',
    List.contains_eq_mem, decide_eq_false_iff_not]
  exact ⟨fun h => ⟨h.token, h.short, h.unreserved⟩, fun h => ⟨h.1, h.2.1, h.2.2⟩⟩

instance (label : Text) : Decidable (IsPlainLabel label) :=
  decidable_of_iff (IsToken label ∧ isLabel label = true) isPlainLabel_iff.symm

namespace Body

def IsValid : Body → Prop
  | plain m => m.family = .registerReference ∨ m.family = .inputOutput
  | literal r n => n.Fits r
  | reference m _ _ => m.family = .memoryReference

instance : DecidablePred IsValid
  | plain m => inferInstanceAs (Decidable (m.family = .registerReference ∨ m.family = .inputOutput))
  | literal r n => inferInstanceAs (Decidable (n.Fits r))
  | reference m _ _ => inferInstanceAs (Decidable (m.family = .memoryReference))

def value? : Body → Option Int
  | literal r n => some (n.value r)
  | _ => none

end Body

namespace Item

def IsValid : Item → Prop
  | origin digits => (address? digits).isSome = true
  | statement s => (∀ label, s.label = some label → IsPlainLabel label) ∧ s.body.IsValid
  | _ => True

instance : DecidablePred IsValid
  | origin digits => inferInstanceAs (Decidable ((address? digits).isSome = true))
  | statement s =>
      inferInstanceAs (Decidable ((∀ label ∈ s.label, IsPlainLabel label) ∧ s.body.IsValid))
  | blank | stop => .isTrue trivial

def origin? : Item → Option Nat
  | origin digits => some (Radix.hexadecimal.value digits)
  | _ => none

end Item

/-- The statements with their addresses, from a value of the location counter on. -/
def layout : Nat → List Item → List (Nat × Statement)
  | _, [] => []
  | counter, .blank :: rest => layout counter rest
  | _, .origin digits :: rest => layout (Radix.hexadecimal.value digits) rest
  | _, .stop :: _ => []
  | counter, .statement s :: rest => (counter, s) :: layout (counter + 1) rest

section

variable (placed : List (Nat × Statement))

/-- The address that an operand stands for: that of a label, or else its own. -/
inductive Denotes (operand : Text) : Nat → Prop
  | label {e : Nat × Statement} (isPlaced : e ∈ placed) (isLabel : e.2.label = some operand) :
      Denotes operand e.1
  | address {address : Nat} (unlabelled : ∀ e ∈ placed, e.2.label ≠ some operand)
      (isAddress : address? operand = some address) : Denotes operand address

def LiteralAt (address value : Int) : Prop :=
  ∃ e ∈ placed, (e.1 : Int) = address ∧ e.2.body.value? = some value

instance (address value : Int) : Decidable (LiteralAt placed address value) :=
  inferInstanceAs (Decidable (∃ e ∈ placed, (e.1 : Int) = address ∧ e.2.body.value? = some value))

def ReachesLiteral (target : Int) (indirect : Bool) : Prop :=
  if indirect then ∃ pointer value, LiteralAt placed target pointer ∧ LiteralAt placed pointer value
  else ∃ value, LiteralAt placed target value

end

structure Clean (items : List Item) : Prop where
  ended : ∃ above below, items = above ++ .stop :: below ∧ .stop ∉ above ∧
    ∀ item ∈ below, item = .blank
  valid : ∀ item ∈ items, item.IsValid
  distinctOrigins : (items.filterMap Item.origin?).Nodup
  distinctLabels : (items.filterMap Item.label?).Nodup
  usedLabels : ∀ label ∈ items.filterMap Item.label?,
    ∃ s m indirect, .statement s ∈ items ∧ s.body = .reference m label indirect
  bounded : ∀ e ∈ layout 0 items, e.1 < memorySize
  separate : ((layout 0 items).map Prod.fst).Nodup
  targets : ∀ e ∈ layout 0 items, ∀ m operand indirect, e.2.body = .reference m operand indirect →
    ∃ target, Denotes (layout 0 items) operand target ∧
      ReachesLiteral (layout 0 items) target indirect
  halts : ∃ s, .statement s ∈ items ∧ s.body = .plain .HLT
  /-- A jump right before an `HLT` can be skipped. -/
  reached : ∀ e ∈ layout 0 items, e.2.body = .plain .HLT →
    ∀ jump ∈ layout 0 items, jump.1 + 1 = e.1 → jump.2.body.mnemonic.jumps = true → 2 ≤ e.1 →
      ∃ skip ∈ layout 0 items, skip.1 + 2 = e.1 ∧ skip.2.body.mnemonic.skips = true

theorem mem_of_mem_layout {counter : Nat} {items : List Item} {e : Nat × Statement}
    (h : e ∈ layout counter items) : .statement e.2 ∈ items := by
  induction items generalizing counter with
  | nil => cases h
  | cons item rest ih =>
      cases item with
      | blank => exact List.mem_cons_of_mem _ (ih h)
      | origin digits => exact List.mem_cons_of_mem _ (ih h)
      | stop => cases h
      | statement s =>
          rcases List.mem_cons.mp h with rfl | h
          · exact List.mem_cons_self
          · exact List.mem_cons_of_mem _ (ih h)

private theorem exists_mem_layout {above below : List Item} (habove : .stop ∉ above)
    (hbelow : ∀ item ∈ below, item = .blank) {s : Statement}
    (h : .statement s ∈ above ++ .stop :: below) (counter : Nat) :
    ∃ address, (address, s) ∈ layout counter (above ++ .stop :: below) := by
  induction above generalizing counter with
  | nil =>
      rcases List.mem_cons.mp h with h | h
      · cases h
      · cases hbelow _ h
  | cons item rest ih =>
      have hrest := ih fun hmem => habove (List.mem_cons_of_mem _ hmem)
      rcases List.mem_cons.mp h with rfl | hs
      · exact ⟨counter, List.mem_cons_self⟩
      · cases item with
        | blank => exact hrest hs counter
        | origin digits => exact hrest hs _
        | stop => exact absurd List.mem_cons_self habove
        | statement first =>
            obtain ⟨address, hmem⟩ := hrest hs (counter + 1)
            exact ⟨address, List.mem_cons_of_mem _ hmem⟩

theorem Clean.exists_placed {items : List Item} (h : Clean items) {s : Statement}
    (hs : .statement s ∈ items) : ∃ address, (address, s) ∈ layout 0 items := by
  obtain ⟨above, below, rfl, habove, hbelow⟩ := h.ended
  exact exists_mem_layout habove hbelow hs 0

private theorem isToken_of_digits {s : Text} (hne : s ≠ [])
    (h : ∀ c ∈ s, Radix.hexadecimal.isDigit c = true) : IsToken s := by
  have hmarks : ∀ mark ∈ labelSeparator :: commentMarks,
      Radix.hexadecimal.isDigit mark = false := by decide
  refine ⟨⟨hne, fun c hc => Radix.not_isBlank_of_isDigit (h c hc)⟩, ?_⟩
  intro c hc
  by_contra hpunctuation
  have hmem : c ∈ labelSeparator :: commentMarks := by
    simpa [isPunctuation, or_iff_not_imp_left] using hpunctuation
  have hdigit := h c hc
  rw [hmarks c hmem] at hdigit
  cases hdigit

theorem Radix.isDigit_hexadecimal {r : Radix} {c : CodePoint} (h : r.isDigit c = true) :
    Radix.hexadecimal.isDigit c = true := by
  cases r with
  | hexadecimal => exact h
  | decimal =>
      have hrange : 48 ≤ c.toNat ∧ c.toNat ≤ 57 := by simpa [isDigit, digit?] using h
      simp [isDigit, digit?, hrange]

private theorem Numeral.isToken_text {n : Numeral} {r : Radix} (h : n.Fits r) : IsToken n.text := by
  refine ⟨isWord_text h, ?_⟩
  intro c hc
  rcases mem_text hc h with rfl | rfl | hdigit
  · decide
  · decide
  · have htoken : IsToken [c] := by
      apply isToken_of_digits (by simp)
      simpa using Radix.isDigit_hexadecimal hdigit
    exact htoken.2 c List.mem_cons_self

private theorem isToken_of_address? {s : Text} {address : Nat} (h : address? s = some address) :
    IsToken s := by
  obtain ⟨hne, hdigits⟩ := isNumeral_of_address? h
  exact isToken_of_digits hne hdigits

theorem Clean.isLexical {items : List Item} (h : Clean items) {item : Item} (hitem : item ∈ items) :
    item.IsLexical := by
  have hvalid := h.valid item hitem
  cases item with
  | blank => exact ⟨by simp [Item.label?], by simp [Item.operands]⟩
  | stop => exact ⟨by simp [Item.label?], by simp [Item.operands]⟩
  | origin digits =>
      obtain ⟨address, haddress⟩ := Option.isSome_iff_exists.mp hvalid
      refine ⟨by simp [Item.label?], ?_⟩
      intro word hword
      rw [List.mem_singleton.mp hword]
      exact isToken_of_address? haddress
  | statement s =>
      refine ⟨fun label hlabel => (hvalid.1 label hlabel).token, ?_⟩
      obtain ⟨label, body⟩ := s
      cases body with
      | plain m => simp [Item.operands, Body.operands]
      | literal r n =>
          intro word hword
          rw [List.mem_singleton.mp hword]
          exact Numeral.isToken_text hvalid.2
      | reference m operand indirect =>
          -- an operand is a word because it denotes an address: a label, or hexadecimal digits
          obtain ⟨address, hplaced⟩ := h.exists_placed hitem
          obtain ⟨target, hdenotes, -⟩ := h.targets _ hplaced m operand indirect rfl
          have hoperand : IsToken operand := by
            cases hdenotes with
            | label isPlaced isLabel =>
                exact ((h.valid _ (mem_of_mem_layout isPlaced)).1 operand isLabel).token
            | address unlabelled isAddress => exact isToken_of_address? isAddress
          intro word hword
          rcases List.mem_cons.mp hword with rfl | hword
          · exact hoperand
          · cases indirect with
            | false => cases hword
            | true =>
                rw [List.mem_singleton.mp hword]
                decide

namespace Line.Shows

variable {l : Line} {item : Item} {m : Mnemonic} (h : l.Shows item m)

include h

theorem mnemonic : l.mnemonic = m.spelling := by
  rw [Line.mnemonic, h.words, List.headD_cons]

theorem mnemonic? : l.mnemonic? = some m := by
  rw [Line.mnemonic?, h.mnemonic, Mnemonic.ofWord?_spelling]

theorem isReference : l.isReference = (m.family == .memoryReference) := by
  simp [Line.isReference, Family.hasWord, h.mnemonic, Mnemonic.ofWord?_spelling]

theorem operandWord {word : Text} {rest : List Text} (hwords : item.operands = word :: rest) :
    l.operandWord = word := by
  rw [Line.operandWord, h.words, hwords]
  rfl

theorem operand {word : Text} (hword : item.operands = [word]) : l.operand = word := by
  apply Line.operand_of_words
  rw [h.words, hword]

end Line.Shows

theorem Item.eq_blank_of_mnemonic? {item : Item} (h : item.mnemonic? = none) : item = .blank := by
  cases item with
  | blank => rfl
  | origin _ | stop | statement _ => cases h

/-- The line is read as what it says, and that is valid. -/
structure Line.Reads (l : Line) (item : Item) : Prop where
  isBlank : item = .blank → l.isBlank = true
  shows : ∀ m, item.mnemonic? = some m → l.Shows item m
  valid : item.IsValid

theorem reads_of_written {lines : List Line} {items : List Item}
    (hitems : ∀ item ∈ items, item.IsValid ∧ item.IsLexical)
    (hwritten : List.Forall₂ (fun l item => Written item l.raw) lines items) :
    List.Forall₂ Line.Reads lines items := by
  induction hwritten with
  | nil => exact .nil
  | cons hfirst hrest ih =>
      rename_i l item lines items
      obtain ⟨hvalid, hlexical⟩ := hitems item List.mem_cons_self
      constructor
      · constructor
        · rintro rfl
          exact hfirst.isBlank
        · exact fun m hm => hfirst.shows hlexical hm
        · exact hvalid
      · exact ih fun item hitem => hitems item (List.mem_cons_of_mem _ hitem)

theorem Body.mnemonic_ne_pseudo {b : Body} (h : b.IsValid) :
    b.mnemonic ≠ .ORG ∧ b.mnemonic ≠ .END := by
  cases b with
  | plain m => rcases h with h | h <;> constructor <;> rintro rfl <;> cases h
  | literal r n => cases r <;> constructor <;> intro hm <;> cases hm
  | reference m operand indirect => constructor <;> rintro rfl <;> cases h

def Item.step : Item → Step
  | blank => .skip
  | origin digits => .origin (some (Radix.hexadecimal.value digits))
  | stop => .stop
  | statement _ => .occupy

theorem Line.Reads.statementStep {l : Line} {item : Item} (h : l.Reads item) :
    l.statementStep = item.step := by
  cases item with
  | blank => simp [Line.statementStep, h.isBlank rfl, Item.step]
  | origin digits =>
      have hshows := h.shows .ORG rfl
      have hword : l.operandWord = digits := hshows.operandWord rfl
      obtain ⟨address, haddress⟩ := Option.isSome_iff_exists.mp h.valid
      simp [Line.statementStep, hshows.isBlank, hshows.mnemonic?, hword, haddress, Item.step,
        value_of_address? haddress]
  | stop =>
      have hshows := h.shows .END rfl
      simp [Line.statementStep, hshows.isBlank, hshows.mnemonic?, Item.step]
  | statement s =>
      have hshows := h.shows s.body.mnemonic rfl
      obtain ⟨horigin, hend⟩ := Body.mnemonic_ne_pseudo h.valid.2
      rw [Line.statementStep, hshows.isBlank, hshows.mnemonic?, if_neg (by simp)]
      split
      · next hm => exact absurd (Option.some.inj hm) horigin
      · next hm => exact absurd (Option.some.inj hm) hend
      · rfl

theorem Line.Reads.isContested {l : Line} {item : Item} (h : l.Reads item) :
    l.isContested = false := by
  cases hlabel : item.label? with
  | none =>
      cases hm : item.mnemonic? with
      | none =>
          simp [Line.isContested, h.isBlank (Item.eq_blank_of_mnemonic? hm)]
      | some m => simp [Line.isContested, (h.shows m hm).hasLabel, hlabel]
  | some label =>
      cases item with
      | blank | origin _ | stop => cases hlabel
      | statement s =>
          have hshows := h.shows s.body.mnemonic rfl
          have hunreserved := (h.valid.1 label hlabel).unreserved
          obtain ⟨horigin, hend⟩ := Body.mnemonic_ne_pseudo h.valid.2
          have hspelling {m : Mnemonic} (hm : s.body.mnemonic ≠ m) :
              l.mnemonic ≠ m.spelling := by
            rw [hshows.mnemonic]
            intro heq
            have hsame := Mnemonic.ofWord?_spelling s.body.mnemonic
            rw [heq, Mnemonic.ofWord?_spelling, Option.some.injEq] at hsame
            exact hm hsame.symm
          have hword (m : Mnemonic) : l.label ≠ m.spelling := by
            rw [hshows.label label hlabel]
            rintro rfl
            apply hunreserved
            exact List.mem_append_left _ (List.mem_map_of_mem m.mem_all)
          simp [Line.isContested, hspelling horigin, hspelling hend, hword]

section

variable {α β γ : Type} {R : α → β → Prop} {xs : List α} {ys : List β}

theorem exists_related_of_mem (h : List.Forall₂ R xs ys) {x : α} (hx : x ∈ xs) :
    ∃ y ∈ ys, R x y := by
  induction h with
  | nil => cases hx
  | cons hfirst _ ih =>
      rcases List.mem_cons.mp hx with rfl | hx
      · exact ⟨_, List.mem_cons_self, hfirst⟩
      · obtain ⟨y, hy, hR⟩ := ih hx
        exact ⟨y, List.mem_cons_of_mem _ hy, hR⟩

theorem exists_related_of_mem_right (h : List.Forall₂ R xs ys) {y : β} (hy : y ∈ ys) :
    ∃ x ∈ xs, R x y :=
  exists_related_of_mem h.flip hy

theorem filterMap_eq_of_related (h : List.Forall₂ R xs ys) {f : α → Option γ} {g : β → Option γ}
    (hfg : ∀ x y, R x y → f x = g y) : xs.filterMap f = ys.filterMap g := by
  induction h with
  | nil => rfl
  | cons hfirst _ ih => rw [List.filterMap_cons, List.filterMap_cons, hfg _ _ hfirst, ih]

end

structure Placement.Reads (p : Placement) (e : Nat × Statement) : Prop where
  address : p.address = e.1
  line : p.line.Reads (.statement e.2)

theorem place_reads {lines : List Line} {items : List Item}
    (h : List.Forall₂ Line.Reads lines items) (counter : Nat) :
    List.Forall₂ Placement.Reads (place Line.statementStep counter lines)
      (layout counter items) := by
  induction h generalizing counter with
  | nil => exact .nil
  | cons hfirst hrest ih =>
      rename_i l item lines items
      rw [place, hfirst.statementStep]
      cases item with
      | blank => exact ih counter
      | origin digits => exact ih _
      | stop => exact .nil
      | statement s => exact .cons ⟨rfl, hfirst⟩ (ih _)

theorem aboveEnd_reads {lines : List Line} {above below : List Item}
    (h : List.Forall₂ Line.Reads lines (above ++ .stop :: below)) (habove : .stop ∉ above) :
    List.Forall₂ Line.Reads (aboveEnd lines) above ∧
      List.Forall₂ Line.Reads (belowEnd lines) below ∧ ∃ l ∈ lines, l.states .END = true := by
  induction above generalizing lines with
  | nil =>
      cases h with
      | cons hfirst hrest =>
          rename_i l lines
          have hend : l.states .END = true := by
            rw [← Line.statementStep_eq_stop_iff, hfirst.statementStep]
            rfl
          rw [aboveEnd_cons_of_end lines hend, belowEnd_cons_of_end lines hend]
          exact ⟨.nil, hrest, l, List.mem_cons_self, hend⟩
  | cons item above ih =>
      cases h with
      | cons hfirst hrest =>
          rename_i l lines
          rw [List.mem_cons, not_or] at habove
          have hend : l.states .END = false := by
            rw [← Bool.not_eq_true, ← Line.statementStep_eq_stop_iff, hfirst.statementStep]
            intro hstep
            cases item with
            | stop => exact habove.1 rfl
            | blank | origin _ | statement _ => cases hstep
          obtain ⟨habove, hbelow, l', hl', hstates⟩ := ih hrest habove.2
          rw [aboveEnd_cons lines hend, belowEnd_cons lines hend]
          exact ⟨.cons hfirst habove, hbelow, l', List.mem_cons_of_mem _ hl', hstates⟩

end TeachAsm
