import Mathlib.Data.List.Nodup
import TeachAsm.Proofs.Loading

/-!
# Clean programs are accepted

Every pass over the lines, the memory and the labels of a clean program is silent, so an analysis
reports nothing, under any limit.
-/

namespace TeachAsm

theorem Line.Reads.operandProblem {l : Line} {item : Item} (h : l.Reads item)
    (hblank : l.isBlank = false) : l.operandProblem = .ok none := by
  cases item with
  | blank =>
      rw [h.isBlank rfl] at hblank
      cases hblank
  | origin digits =>
      have hshows := h.shows .ORG rfl
      have hword : l.operandWord = digits := hshows.operandWord rfl
      rw [Line.operandProblem_of_origin hshows.mnemonic?, hshows.words, hword]
      exact ⟨rfl, h.valid⟩
  | stop => simp [Line.operandProblem, (h.shows .END rfl).mnemonic?, Mnemonic.family]
  | statement s =>
      have hvalid := h.valid.2
      have hshows := h.shows s.body.mnemonic rfl
      obtain ⟨label, body⟩ := s
      cases body with
      | plain m =>
          have hfamily : m.family ≠ .pseudo ∧ m.family ≠ .memoryReference := by
            rcases hvalid with hvalid | hvalid <;> simp [hvalid]
          rw [Line.operandProblem_of_not_pseudo hshows.mnemonic? hfamily.1,
            if_neg fun hmark => hfamily.2 hmark.1]
      | literal r n =>
          have hoperand : l.operand = n.text := hshows.operand rfl
          cases r with
          | decimal =>
              rw [Line.operandProblem_of_decimal hshows.mnemonic?, hoperand]
              exact ⟨_, Numeral.decimalWord_text hvalid⟩
          | hexadecimal =>
              rw [Line.operandProblem_of_hexadecimal hshows.mnemonic?, hoperand]
              exact ⟨_, Numeral.hexWord?_text hvalid⟩
      | reference m operand indirect =>
          have hfamily : m.family = .memoryReference := hvalid
          have hreference : l.isReference = true := by
            rw [hshows.isReference]
            simp [Body.mnemonic, hfamily]
          rw [Line.operandProblem_of_reference hreference, hshows.words]
          intro word hword
          cases indirect with
          | false => cases hword
          | true => exact (Option.some.inj hword).symm

theorem Line.Reads.origin? {l : Line} {item : Item} (h : l.Reads item) :
    l.origin? = item.origin?.map fun address : Nat => (address : Int) := by
  have hother {m : Mnemonic} (hm : l.mnemonic? = some m) (hne : m ≠ .ORG) : l.origin? = none := by
    simp [Line.origin?, Line.states, hm, hne]
  cases item with
  | blank => simp [Line.origin?, Line.states, h.isBlank rfl, Item.origin?]
  | origin digits =>
      have hshows := h.shows .ORG rfl
      have hword : l.operandWord = digits := hshows.operandWord rfl
      obtain ⟨address, haddress⟩ := Option.isSome_iff_exists.mp h.valid
      have hstates : l.states .ORG = true :=
        Line.states_iff.mpr ⟨hshows.isBlank, hshows.mnemonic?⟩
      rw [Line.origin?_of_address? hstates (hword ▸ haddress), Item.origin?,
        value_of_address? haddress]
      rfl
  | stop => exact hother (h.shows .END rfl).mnemonic? (by decide)
  | statement s =>
      exact hother (h.shows s.body.mnemonic rfl).mnemonic? (Body.mnemonic_ne_pseudo h.valid.2).1

namespace Clean

variable {lines : List Line} {items : List Item} (h : Clean items)
  (hreads : List.Forall₂ Line.Reads lines items)

include h hreads

private theorem spellingFindings_eq_nil : spellingFindings lines = [] := by
  obtain ⟨above, below, rfl, habove, -⟩ := h.ended
  rw [spellingFindings_eq_nil_iff]
  intro l hl hblank
  obtain ⟨item, -, hitem⟩ := exists_related_of_mem (aboveEnd_reads hreads habove).1 hl
  cases hm : item.mnemonic? with
  | none =>
      rw [hitem.isBlank (Item.eq_blank_of_mnemonic? hm)] at hblank
      cases hblank
  | some m => rw [(hitem.shows m hm).mnemonic?, Option.isSome_some]

private theorem sourceFindings_eq_nil : sourceFindings lines = [] := by
  obtain ⟨s, hs, hhalt⟩ := h.halts
  obtain ⟨above, below, rfl, habove, hbelow⟩ := h.ended
  obtain ⟨hreadsAbove, hreadsBelow, hend⟩ := aboveEnd_reads hreads habove
  rw [sourceFindings_eq_nil_iff]
  refine ⟨?_, ?_, hend, ?_⟩
  · intro l hl hblank
    obtain ⟨item, -, hitem⟩ := exists_related_of_mem hreadsAbove hl
    exact hitem.operandProblem hblank
  · intro l hl
    obtain ⟨item, hmem, hitem⟩ := exists_related_of_mem hreadsBelow hl
    exact hitem.isBlank (hbelow item hmem)
  · have hmem : .statement s ∈ above := by
      rcases List.mem_append.mp hs with hs | hs
      · exact hs
      · rcases List.mem_cons.mp hs with hs | hs
        · cases hs
        · cases hbelow _ hs
    obtain ⟨l, hl, hitem⟩ := exists_related_of_mem_right hreadsAbove hmem
    have hshows := hitem.shows s.body.mnemonic rfl
    refine ⟨l, hl, Line.states_iff.mpr ⟨hshows.isBlank, ?_⟩⟩
    rw [hshows.mnemonic?, hhalt]
    rfl

private theorem originFindings_eq_nil : originFindings [] lines = [] := by
  have horigins : lines.filterMap Line.origin? =
      (items.filterMap Item.origin?).map fun address : Nat => (address : Int) := by
    rw [List.map_filterMap]
    exact filterMap_eq_of_related hreads fun _ _ hitem => hitem.origin?
  rw [originFindings_eq_nil_iff, horigins]
  constructor
  · exact h.distinctOrigins.map fun _ _ heq => Int.ofNat_inj.mp heq
  · intro origin _
    rfl

end Clean

namespace Cell.Holds

variable {c : Cell} {placed : List (Nat × Statement)} {s : Statement} (h : c.Holds placed s)

include h

theorem mnemonic? : c.mnemonic? = some s.body.mnemonic := by
  rw [Cell.mnemonic?, h.mnemonic, Mnemonic.ofWord?_spelling]

theorem mentionsOrigin (hvalid : s.body.IsValid) : c.mentionsOrigin = false := by
  obtain ⟨front, back, hwords, hfront, hback, -⟩ := h.words
  exact Cell.mentionsOrigin_of_words hwords hfront hback (Body.mnemonic_ne_pseudo hvalid).1

theorem endsScan (hvalid : s.body.IsValid) : c.endsScan = false := by
  obtain ⟨front, back, hwords, hfront, hback, -⟩ := h.words
  exact Cell.endsScan_of_words hwords hfront hback (Body.mnemonic_ne_pseudo hvalid).2

theorem formProblem? : c.formProblem? = none := by
  obtain ⟨front, back, hwords, hfront, hback, hlast⟩ := h.words
  apply Cell.formProblem?_of_words hwords hfront hback hlast
  cases hbody : s.body with
  | plain m => simp [h.verbatim (by simp [hbody])]
  | literal r n => simp [h.verbatim (by simp [hbody])]
  | reference m operand indirect => simp [(h.reference m operand indirect hbody).1]

end Cell.Holds

namespace Image.Holds

variable {image : Image} {items : List Item} (h : image.Holds (layout 0 items))
  (hclean : Clean items)

include h hclean

private theorem holdsLiteral {address value : Int}
    (hliteral : LiteralAt (layout 0 items) address value) : image.HoldsLiteral address value := by
  obtain ⟨e, he, rfl, hvalue⟩ := hliteral
  have hbound := hclean.bounded e he
  refine ⟨by simpa [isAddress] using hbound, ?_⟩
  rw [Int.toNat_natCast]
  exact (h.cell e he).literal value hvalue

theorem leadsToLiteral {target : Int} {indirect : Bool}
    (hreaches : ReachesLiteral (layout 0 items) target indirect) :
    image.LeadsToLiteral target indirect := by
  cases indirect with
  | false =>
      obtain ⟨value, hliteral⟩ := hreaches
      exact ⟨value, h.holdsLiteral hclean hliteral⟩
  | true =>
      obtain ⟨pointer, value, hpointer, hliteral⟩ := hreaches
      exact ⟨pointer, value, h.holdsLiteral hclean hpointer, h.holdsLiteral hclean hliteral⟩

theorem hiddenByJump {e : Nat × Statement} (he : e ∈ layout 0 items)
    (hhalt : e.2.body = .plain .HLT) (hlow : 2 ≤ e.1) : image.hiddenByJump e.1 = .ok false := by
  rw [Image.hiddenByJump_eq hlow (hclean.bounded e he), Except.ok.injEq]
  cases hjumps : (image.cell (e.1 - 1)).mnemonic?.any Mnemonic.jumps with
  | false => rfl
  | true =>
      rcases image.mem_or_cell_eq_empty (e.1 - 1) with hwritten | hempty
      · obtain ⟨jump, hjump, haddress, hholds⟩ := h.written _ hwritten
        rw [hholds.mnemonic?, Option.any_some] at hjumps
        obtain ⟨skip, hskip, hbefore, hskips⟩ :=
          hclean.reached e he hhalt jump hjump (by omega) hjumps hlow
        have hcell := (h.cell skip hskip).mnemonic?
        have haddress : e.1 - 2 = skip.1 := by omega
        rw [haddress, hcell, Option.any_some, hskips]
        rfl
      · rw [hempty] at hjumps
        cases hjumps

theorem logicProblem {w : Nat × Cell} (hw : w ∈ image.cells) :
    image.logicProblem w.1 w.2 = .ok none := by
  obtain ⟨e, he, haddress, hholds⟩ := h.written w hw
  cases hbody : e.2.body with
  | reference m operand indirect =>
      obtain ⟨hkind, hindirect, htarget⟩ := hholds.reference m operand indirect hbody
      obtain ⟨target, hdenotes, hreaches⟩ := hclean.targets e he m operand indirect hbody
      rw [Image.logicProblem_of_reference w.1 hkind (htarget target hdenotes), hindirect]
      exact h.leadsToLiteral hclean hreaches
  | plain m =>
      have hkind : w.2.kind = .verbatim := hholds.verbatim (by simp [hbody])
      have hmnemonic : w.2.mnemonic? = some m := by rw [hholds.mnemonic?, hbody]; rfl
      rw [Image.logicProblem, hkind, hmnemonic, haddress]
      dsimp only
      split
      · next hhalt =>
          rw [Option.some.injEq] at hhalt
          rw [h.hiddenByJump hclean he (hhalt.1 ▸ hbody) hhalt.2]
          rfl
      · rfl
  | literal r n =>
      have hkind : w.2.kind = .verbatim := hholds.verbatim (by simp [hbody])
      have hmnemonic : w.2.mnemonic? = some r.mnemonic := by rw [hholds.mnemonic?, hbody]; rfl
      have hhalt : r.mnemonic ≠ .HLT := by cases r <;> decide
      simp [Image.logicProblem, hkind, hmnemonic, hhalt]

private theorem quiet {w : Nat × Cell} (hw : w ∈ image.cells) :
    w.2.mentionsOrigin = false ∧ w.2.endsScan = false := by
  obtain ⟨e, he, -, hholds⟩ := h.written w hw
  have hvalid := (hclean.valid _ (mem_of_mem_layout he)).2
  exact ⟨hholds.mentionsOrigin hvalid, hholds.endsScan hvalid⟩

private theorem cellFormFindings_eq_nil : cellFormFindings 0 image.cells = [] := by
  rw [cellFormFindings_eq_nil_iff fun w hw => h.quiet hclean hw]
  intro w hw
  obtain ⟨e, -, -, hholds⟩ := h.written w hw
  exact hholds.formProblem?

private theorem cellLogicFindings_eq_nil : cellLogicFindings image image.cells = [] := by
  rw [cellLogicFindings_eq_nil_iff fun w hw => (h.quiet hclean hw).2]
  exact fun w hw => h.logicProblem hclean hw

end Image.Holds

private theorem Clean.labelReport_eq_nil {lines : List Line} {items : List Item} (h : Clean items)
    (hreads : List.Forall₂ Line.Reads lines items) :
    labelReport (resolve lines) (load lines (resolve lines)).unused = [] := by
  have hplaced : List.Forall₂ Placement.Reads (statements lines) (layout 0 items) :=
    place_reads hreads 0
  have hlines : (aboveEnd lines).filter Line.occupies = (statements lines).map Placement.line :=
    (map_line_place 0 lines).symm
  have hreport := labelReport_load_eq_nil_iff (not_isContested_of_reads hreads)
  dsimp only at hreport
  rw [hreport, hlines, declaredLabels_eq hplaced]
  refine ⟨?_, h.distinct_labels_layout, ?_⟩
  · intro l hl hlabel
    obtain ⟨p, hp, rfl⟩ := List.mem_map.mp hl
    obtain ⟨e, -, hitem⟩ := exists_related_of_mem hplaced hp
    have hdeclares := hitem.line.declares_iff
    have hsome : p.line.hasLabel = e.2.label.isSome := (hitem.line.shows _ rfl).hasLabel
    rw [← hsome, hlabel] at hdeclares
    simpa [Line.declares, hlabel] using hdeclares
  · intro label hlabel
    obtain ⟨s, m, indirect, hs, hbody⟩ :=
      h.usedLabels label ((labels_layout_sublist 0 items).subset hlabel)
    obtain ⟨address, he⟩ := h.exists_placed hs
    obtain ⟨p, hp, hitem⟩ := exists_related_of_mem_right hplaced he
    have hshows := hitem.line.shows s.body.mnemonic rfl
    have hvalid := hitem.line.valid.2
    rw [hbody] at hvalid hshows
    refine ⟨p.line, List.mem_map_of_mem hp, ?_, ?_⟩
    · have hfamily : m.family = .memoryReference := hvalid
      rw [hshows.isReference]
      simpa [Body.mnemonic] using hfamily
    · apply hshows.operandWord
      rw [Item.operands, hbody]
      rfl

namespace Analysis

private theorem isEmpty_of_clean {text : Text} {items : List Item} (hclean : Clean items)
    (hreads : List.Forall₂ Line.Reads (sourceLines text) items) : text.isEmpty = false := by
  cases text with
  | cons c rest => rfl
  | nil =>
      obtain ⟨s, hs, hhalt⟩ := hclean.halts
      obtain ⟨l, hl, hitem⟩ := exists_related_of_mem_right hreads hs
      have hmnemonic : l.mnemonic? = some s.body.mnemonic := (hitem.shows _ rfl).mnemonic?
      have hnone : ∀ l ∈ sourceLines [], l.mnemonic? = none := by decide
      rw [hnone l hl] at hmnemonic
      cases hmnemonic

/-- Under any limit that can be written, an analysis of a clean program reports nothing. Under one
that cannot it fails on the limit. -/
theorem analyze_of_clean {text : Text} {items : List Item} (hclean : Clean items)
    (hwritten : List.Forall₂ (fun l item => Written item l.raw) (sourceLines text) items)
    (limit : Int) :
    analyze limit text = if Radix.isWritable limit then .ok [] else .error .unwritable := by
  have hreads : List.Forall₂ Line.Reads (sourceLines text) items := by
    apply reads_of_written _ hwritten
    exact fun item hitem => ⟨hclean.valid item hitem, hclean.isLexical hitem⟩
  have himage := hclean.holds_image hreads
  have hnote : canNote limit text = Radix.isWritable limit := by
    rw [canNote, isEmpty_of_clean hclean hreads, Bool.false_or]
  rw [← hnote]
  apply analyze_of_silent
  · rw [textFindings]
    split
    · rfl
    · rw [findings, formFindings, logicFindings, hclean.spellingFindings_eq_nil hreads,
        hclean.sourceFindings_eq_nil hreads, hclean.originFindings_eq_nil hreads,
        himage.cellFormFindings_eq_nil hclean, himage.cellLogicFindings_eq_nil hclean]
      rfl
  · rw [textLabels]
    split
    · rfl
    · exact hclean.labelReport_eq_nil hreads

/-- A program that loads through a pointer and halts behind a jump that it may skip. -/
theorem analyze_of_clean_pointer :
    let text : Text := .ofString ("/ stop below zero\nORG 10\n LDA PTR I / indirect\n SNA\n" ++
      " BUN NUM\n HLT\nPTR, HEX 15\nNUM, DEC -7\nEND\n")
    let items : List Item := [.blank, .origin "10",
      .statement ⟨none, .reference .LDA "PTR" true⟩, .statement ⟨none, .plain .SNA⟩,
      .statement ⟨none, .reference .BUN "NUM" false⟩, .statement ⟨none, .plain .HLT⟩,
      .statement ⟨some "PTR", .literal .hexadecimal ⟨.absent, "15"⟩⟩,
      .statement ⟨some "NUM", .literal .decimal ⟨.minus, "7"⟩⟩, .stop, .blank]
    Clean items ∧ List.Forall₂ (fun l item => Written item l.raw) (sourceLines text) items ∧
      analyze 100 text = .ok [] := by
  intro text items
  have hload : .statement ⟨none, .reference .LDA "PTR" true⟩ ∈ items := by decide
  have hjump : .statement ⟨none, .reference .BUN "NUM" false⟩ ∈ items := by decide
  have hhalt : .statement ⟨none, .plain .HLT⟩ ∈ items := by decide
  have hlabels : items.filterMap Item.label? = ["PTR", "NUM"] := by decide
  have hlayout : layout 0 items = [
      (16, ⟨none, .reference .LDA "PTR" true⟩), (17, ⟨none, .plain .SNA⟩),
      (18, ⟨none, .reference .BUN "NUM" false⟩), (19, ⟨none, .plain .HLT⟩),
      (20, ⟨some "PTR", .literal .hexadecimal ⟨.absent, "15"⟩⟩),
      (21, ⟨some "NUM", .literal .decimal ⟨.minus, "7"⟩⟩)] := by decide
  have hfirst : (20, ⟨some "PTR", .literal .hexadecimal ⟨.absent, "15"⟩⟩) ∈ layout 0 items := by
    decide
  have hsecond : (21, ⟨some "NUM", .literal .decimal ⟨.minus, "7"⟩⟩) ∈ layout 0 items := by decide
  have hpointer : LiteralAt (layout 0 items) 20 21 := by decide
  have hvalue : LiteralAt (layout 0 items) 21 (-7) := by decide
  have hclean : Clean items := {
    ended := ⟨items.take 8, [.blank], rfl, by decide, by decide⟩
    valid := by decide +kernel
    distinctOrigins := by decide
    distinctLabels := by decide
    usedLabels := by
      intro label hlabel
      rw [hlabels] at hlabel
      rcases List.mem_cons.mp hlabel with rfl | hlabel
      · exact ⟨_, _, _, hload, rfl⟩
      · rw [List.mem_singleton.mp hlabel]
        exact ⟨_, _, _, hjump, rfl⟩
    bounded := by decide
    separate := by decide
    targets := by
      intro e he m operand indirect hbody
      rw [hlayout] at he
      simp only [List.mem_cons, List.not_mem_nil, or_false] at he
      rcases he with rfl | rfl | rfl | rfl | rfl | rfl <;> cases hbody
      · exact ⟨20, .label hfirst rfl, 21, -7, hpointer, hvalue⟩
      · exact ⟨21, .label hsecond rfl, -7, hvalue⟩
    halts := ⟨_, hhalt, rfl⟩
    reached := by decide }
  have hlines : (sourceLines text).map Line.raw = ["/ stop below zero", "ORG 10",
      " LDA PTR I / indirect", " SNA", " BUN NUM", " HLT", "PTR, HEX 15", "NUM, DEC -7", "END",
      ""] := by decide +kernel
  have hwritten : List.Forall₂ (fun raw item => Written item raw) ((sourceLines text).map Line.raw)
      items := by
    rw [hlines]
    refine .cons (.comment Text.blanks_nil (by decide : .char '/' ∈ commentMarks) _) ?_
    refine .cons (.of_words "" "" "" (by decide) (.inl rfl) rfl (by decide) (by decide)) ?_
    refine .cons (.of_words " " " " "/ indirect" (by decide) (.inr ⟨_, rfl⟩) rfl (by decide)
      (by decide)) ?_
    refine .cons (.of_words " " "" "" (by decide) (.inl rfl) rfl (by decide) (by decide)) ?_
    refine .cons (.of_words " " "" "" (by decide) (.inl rfl) rfl (by decide) (by decide)) ?_
    refine .cons (.of_words " " "" "" (by decide) (.inl rfl) rfl (by decide) (by decide)) ?_
    refine .cons (.of_words "" "" "" (by decide) (.inl rfl) rfl (by decide) (by decide)) ?_
    refine .cons (.of_words "" "" "" (by decide) (.inl rfl) rfl (by decide) (by decide)) ?_
    refine .cons (.of_words "" "" "" (by decide) (.inl rfl) rfl (by decide) (by decide)) ?_
    exact .cons (.blank Text.blanks_nil) .nil
  rw [List.forall₂_map_left_iff] at hwritten
  exact ⟨hclean, hwritten, (analyze_of_clean hclean hwritten 100).trans (if_pos (by decide))⟩

end Analysis

end TeachAsm
