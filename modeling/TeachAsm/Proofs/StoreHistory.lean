import Mathlib.Order.WellFounded
import TeachAsm.Proofs.Declarations
import TeachAsm.Proofs.Publication

/-!
# Histories of the document store

What is stored after any sequence of operations can be read off the sequence. A document is open if
a write of it comes after its last close. It has the text of its last write, and the version of the
last write that gives one. The documents stand in the order in which they became open, which no
later write changes.
-/

namespace TeachAsm

namespace Documents

inductive Write.Mode where
  | insert
  | update
deriving DecidableEq

/-- A document that is handed over under a text as its identifier. -/
structure Write where
  mode : Write.Mode
  uri : Text
  text : Json
  version : Option Json
deriving DecidableEq

inductive Operation where
  | write (w : Write)
  | close (uri : Text)
deriving DecidableEq

def apply (d : Documents) : Operation → Documents
  | .write w =>
    match w.mode with
    | .insert => d.insert (.text w.uri) ⟨.str w.uri, w.text, w.version⟩
    | .update => d.update (.text w.uri) (.str w.uri) w.text w.version
  | .close uri =>
    match d.close (.str uri) with
    | .ok (rest, _) => rest
    | .error _ => d

def after (history : List Operation) : Documents := history.foldl apply {}

def Write.document (w : Write) (d : Documents) : Document :=
  match w.mode with
  | .insert => ⟨.str w.uri, w.text, w.version⟩
  | .update => d.revised (.text w.uri) (.str w.uri) w.text w.version

theorem after_concat (history : List Operation) (o : Operation) :
    after (history ++ [o]) = (after history).apply o := by
  simp [after]

private theorem apply_write (d : Documents) (w : Write) :
    d.apply (.write w) = d.insert (.text w.uri) (w.document d) := by
  rw [apply, Write.document]
  cases w.mode <;> rfl

private theorem apply_close (d : Documents) (uri : Text) :
    d.apply (.close uri) = d.erase (.text uri) := by
  rw [apply, close_of_key d rfl]

/-- The write stands at the position, and the document is not closed behind it. -/
structure Live (history : List Operation) (uri : Text) (e : Nat × Write) : Prop where
  here : history[e.1]? = some (.write e.2)
  named : e.2.uri = uri
  kept : ∀ i, e.1 < i → history[i]? ≠ some (.close uri)

/-- The first of the live writes of a document, by which it became open. -/
structure Opening (writes : Nat × Write → Prop) (e : Nat × Write) : Prop where
  live : writes e
  first : ∀ e', writes e' → e.1 ≤ e'.1

/-- A live write that gives the document its version, be it none. -/
structure Versions (writes : Nat × Write → Prop) (e : Nat × Write) : Prop where
  live : writes e
  gives : e.2.mode = .insert ∨ e.2.version ≠ none ∨ Opening writes e

/-- What is stored under an identifier by the live writes of it. -/
structure Stored (writes : Nat × Write → Prop) (uri : Text) (document : Document) : Prop where
  identifier : document.uri = .str uri
  text : ∃ e, Latest Prod.fst writes e ∧ document.text = e.2.text
  version : ∃ e, Latest Prod.fst (Versions writes) e ∧ document.version = e.2.version

/-- The first document became open before the second one. -/
def OpenedBefore (history : List Operation) (first second : Text) : Prop :=
  ∃ e e', Opening (Live history first) e ∧ Opening (Live history second) e' ∧ e.1 < e'.1

section

variable {history : List Operation} {uri : Text} {e : Nat × Write}

private theorem Live.lt_length (h : Live history uri e) : e.1 < history.length :=
  (List.getElem?_eq_some_iff.mp h.here).1

private theorem getElem?_concat_iff (o p : Operation) (i : Nat) :
    (history ++ [o])[i]? = some p ↔ history[i]? = some p ∨ i = history.length ∧ o = p := by
  rcases Nat.lt_trichotomy i history.length with hi | rfl | hi
  · rw [List.getElem?_append_left hi]
    simp [Nat.ne_of_lt hi]
  · simp
  · have hbeyond : (history ++ [o]).length ≤ i := by
      rw [List.length_append]
      exact hi
    simp [List.getElem?_eq_none hbeyond, List.getElem?_eq_none (Nat.le_of_lt hi), Nat.ne_of_gt hi]

private theorem live_write_iff (w : Write) :
    Live (history ++ [.write w]) uri e ↔
      Live history uri e ∨ w.uri = uri ∧ e = (history.length, w) := by
  have hclose (i : Nat) : (history ++ [.write w])[i]? = some (.close uri) ↔
      history[i]? = some (.close uri) := by
    simp [getElem?_concat_iff]
  constructor
  · rintro ⟨hhere, hnamed, hkept⟩
    simp only [ne_eq, hclose] at hkept
    rcases (getElem?_concat_iff _ _ _).mp hhere with hhere | ⟨hlast, hwrite⟩
    · exact .inl ⟨hhere, hnamed, hkept⟩
    · cases hwrite
      exact .inr ⟨hnamed, Prod.ext hlast rfl⟩
  · rintro (⟨hhere, hnamed, hkept⟩ | ⟨hnamed, rfl⟩)
    · refine ⟨(getElem?_concat_iff _ _ _).mpr (.inl hhere), hnamed, ?_⟩
      simpa only [ne_eq, hclose] using hkept
    · refine ⟨(getElem?_concat_iff _ _ _).mpr (.inr ⟨rfl, rfl⟩), hnamed, ?_⟩
      intro i hi
      rw [ne_eq, hclose, List.getElem?_eq_none (Nat.le_of_lt hi)]
      simp

private theorem live_close_iff (closed : Text) :
    Live (history ++ [.close closed]) uri e ↔ Live history uri e ∧ closed ≠ uri := by
  constructor
  · rintro ⟨hhere, hnamed, hkept⟩
    have hhere' : history[e.1]? = some (.write e.2) := by
      simpa [getElem?_concat_iff] using hhere
    have hlt : e.1 < history.length := (List.getElem?_eq_some_iff.mp hhere').1
    refine ⟨⟨hhere', hnamed, ?_⟩, ?_⟩
    · intro i hi hclose
      exact hkept i hi ((getElem?_concat_iff _ _ _).mpr (.inl hclose))
    · rintro rfl
      exact hkept _ hlt ((getElem?_concat_iff _ _ _).mpr (.inr ⟨rfl, rfl⟩))
  · rintro ⟨⟨hhere, hnamed, hkept⟩, hne⟩
    refine ⟨(getElem?_concat_iff _ _ _).mpr (.inl hhere), hnamed, ?_⟩
    intro i hi hclose
    rcases (getElem?_concat_iff _ _ _).mp hclose with hclose | ⟨-, heq⟩
    · exact hkept i hi hclose
    · cases heq
      exact hne rfl

private theorem live_write_of_ne {w : Write} (h : w.uri ≠ uri) :
    Live (history ++ [.write w]) uri = Live history uri := by
  funext e
  simp [live_write_iff, h]

private theorem live_close_of_ne {closed : Text} (h : closed ≠ uri) :
    Live (history ++ [.close closed]) uri = Live history uri := by
  funext e
  simp [live_close_iff, h]

private theorem OpenedBefore.ne {first second : Text} (h : OpenedBefore history first second) :
    first ≠ second := by
  rintro rfl
  obtain ⟨e, e', he, he', hlt⟩ := h
  exact Nat.not_le_of_lt hlt (he'.first e he.live)

private theorem exists_opening {writes : Nat × Write → Prop} (h : ∃ e, writes e) :
    ∃ e, Opening writes e := by
  obtain ⟨e, he, hfirst⟩ := (measure Prod.fst).wf.has_min {e | writes e} h
  exact ⟨e, he, fun e' he' => Nat.le_of_not_lt (hfirst e' he')⟩

end

section

variable {history : List Operation} {w : Write} {e : Nat × Write}

private theorem opening_write_iff : Opening (Live (history ++ [.write w]) w.uri) e ↔
    Opening (Live history w.uri) e ∨
      e = (history.length, w) ∧ ¬ ∃ e', Live history w.uri e' := by
  constructor
  · rintro ⟨hlive, hfirst⟩
    rcases (live_write_iff w).mp hlive with hlive | ⟨-, rfl⟩
    · exact .inl ⟨hlive, fun e' he' => hfirst e' ((live_write_iff w).mpr (.inl he'))⟩
    · refine .inr ⟨rfl, ?_⟩
      rintro ⟨e', he'⟩
      have hle := hfirst e' ((live_write_iff w).mpr (.inl he'))
      exact Nat.not_le_of_lt he'.lt_length hle
  · rintro (⟨hlive, hfirst⟩ | ⟨rfl, hclosed⟩)
    · refine ⟨(live_write_iff w).mpr (.inl hlive), ?_⟩
      intro e' he'
      rcases (live_write_iff w).mp he' with he' | ⟨-, rfl⟩
      · exact hfirst e' he'
      · exact Nat.le_of_lt hlive.lt_length
    · refine ⟨(live_write_iff w).mpr (.inr ⟨rfl, rfl⟩), ?_⟩
      intro e' he'
      rcases (live_write_iff w).mp he' with he' | ⟨-, rfl⟩
      · exact absurd ⟨e', he'⟩ hclosed
      · exact Nat.le_refl _

private theorem versions_write_iff : Versions (Live (history ++ [.write w]) w.uri) e ↔
    Versions (Live history w.uri) e ∨ e = (history.length, w) ∧
      (w.mode = .insert ∨ w.version ≠ none ∨ ¬ ∃ e', Live history w.uri e') := by
  constructor
  · rintro ⟨hlive, hgives⟩
    rw [opening_write_iff] at hgives
    rcases (live_write_iff w).mp hlive with hlive | ⟨-, rfl⟩
    · refine .inl ⟨hlive, hgives.imp_right (.imp_right ?_)⟩
      rintro (hopening | ⟨rfl, -⟩)
      · exact hopening
      · exact absurd hlive.lt_length (Nat.lt_irrefl _)
    · refine .inr ⟨rfl, hgives.imp_right (.imp_right ?_)⟩
      rintro (hopening | ⟨-, hclosed⟩)
      · exact absurd hopening.live.lt_length (Nat.lt_irrefl _)
      · exact hclosed
  · rintro (⟨hlive, hgives⟩ | ⟨rfl, hgives⟩)
    · refine ⟨(live_write_iff w).mpr (.inl hlive), hgives.imp_right (.imp_right ?_)⟩
      exact fun hopening => opening_write_iff.mpr (.inl hopening)
    · refine ⟨(live_write_iff w).mpr (.inr ⟨rfl, rfl⟩), hgives.imp_right (.imp_right ?_)⟩
      exact fun hclosed => opening_write_iff.mpr (.inr ⟨rfl, hclosed⟩)

private theorem latest_live_write :
    Latest Prod.fst (Live (history ++ [.write w]) w.uri) (history.length, w) := by
  have hnew (e : Nat × Write) : Live (history ++ [.write w]) w.uri e ↔
      Live history w.uri e ∨ e = (history.length, w) := by
    simp [live_write_iff]
  exact (Latest.iff_eq_of_new hnew (fun e he => he.lt_length) _).mpr rfl

private theorem latest_versions_write
    (h : w.mode = .insert ∨ w.version ≠ none ∨ ¬ ∃ e', Live history w.uri e') :
    Latest Prod.fst (Versions (Live (history ++ [.write w]) w.uri)) (history.length, w) := by
  have hnew (e : Nat × Write) : Versions (Live (history ++ [.write w]) w.uri) e ↔
      Versions (Live history w.uri) e ∨ e = (history.length, w) := by
    rw [versions_write_iff, and_iff_left h]
  exact (Latest.iff_eq_of_new hnew (fun e he => he.live.lt_length) _).mpr rfl

/-- What is stored after a write, from what the live writes before it have stored. -/
private theorem Write.stored_document {d : Documents}
    (hclosed : d.get? (.text w.uri) = none → ¬ ∃ e, Live history w.uri e)
    (hstored : ∀ document, d.get? (.text w.uri) = some document →
      Stored (Live history w.uri) w.uri document) :
    Stored (Live (history ++ [.write w]) w.uri) w.uri (w.document d) := by
  have hlast : Latest Prod.fst (Live (history ++ [.write w]) w.uri) (history.length, w) :=
    latest_live_write
  cases hmode : w.mode with
  | insert =>
      rw [document, hmode]
      exact ⟨rfl, ⟨_, hlast, rfl⟩, _, latest_versions_write (.inl hmode), rfl⟩
  | update =>
      rw [document, hmode]
      dsimp only
      cases hget : d.get? (.text w.uri) with
      | none =>
          rw [revised, hget]
          exact ⟨rfl, ⟨_, hlast, rfl⟩, _, latest_versions_write (.inr (.inr (hclosed hget))), rfl⟩
      | some old =>
          obtain ⟨huri, -, e, he, hversion⟩ := hstored old hget
          rw [revised, hget]
          refine ⟨huri, ⟨_, hlast, rfl⟩, ?_⟩
          cases hnew : w.version with
          | some v =>
              have hgives : w.version ≠ none := by simp [hnew]
              exact ⟨_, latest_versions_write (.inr (.inl hgives)), hnew.symm⟩
          | none =>
              -- the update gives no version, so the last write that gave one stays the last
              have hlive : ∃ e', Live history w.uri e' := ⟨e, he.holds.live⟩
              have hsame (e' : Nat × Write) : Versions (Live (history ++ [.write w]) w.uri) e' ↔
                  Versions (Live history w.uri) e' := by
                simp [versions_write_iff, hmode, hnew, hlive]
              exact ⟨e, (Latest.congr hsame e).mpr he, hversion⟩

end

/-- The documents are what the history says. -/
structure Reflects (d : Documents) (history : List Operation) : Prop where
  keys : ∀ key, key ∈ d.table.keys ↔ ∃ uri, key = .text uri ∧ ∃ e, Live history uri e
  order : d.table.keys.Pairwise fun a b =>
    ∃ uri uri', a = .text uri ∧ b = .text uri' ∧ OpenedBefore history uri uri'
  stored : ∀ uri document, d.get? (.text uri) = some document →
    Stored (Live history uri) uri document

private theorem mem_keys_iff_isSome (d : Documents) (key : Key) :
    key ∈ d.table.keys ↔ (d.get? key).isSome := by
  rw [Table.mem_keys_iff, Option.isSome_iff_exists]
  rfl

private theorem get?_of_mem_entries {d : Documents} {a : Key × Document} (h : a ∈ d.table.entries) :
    d.get? a.1 = some a.2 :=
  Table.find?_of_mem d.table.distinct h

namespace Reflects

variable {d : Documents} {history : List Operation} (h : d.Reflects history)

include h

private theorem isSome_get?_iff (uri : Text) :
    (d.get? (.text uri)).isSome ↔ ∃ e, Live history uri e := by
  rw [← mem_keys_iff_isSome, h.keys]
  simp

private theorem get?_eq_none_iff (uri : Text) :
    d.get? (.text uri) = none ↔ ¬ ∃ e, Live history uri e := by
  rw [← h.isSome_get?_iff, Option.not_isSome_iff_eq_none]

private theorem exists_uri {a : Key × Document} (ha : a ∈ d.table.entries) :
    ∃ uri, a.1 = .text uri ∧ a.2.uri = .str uri ∧ d.get? (.text uri) = some a.2 := by
  obtain ⟨uri, hkey, -⟩ := (h.keys a.1).mp (List.mem_map_of_mem ha)
  have hget := get?_of_mem_entries ha
  rw [hkey] at hget
  exact ⟨uri, hkey, (h.stored uri a.2 hget).identifier, hget⟩

private theorem mem_toList_iff_exists (document : Document) :
    document ∈ d.toList ↔ ∃ uri, d.get? (.text uri) = some document := by
  constructor
  · intro hmem
    obtain ⟨a, ha, rfl⟩ := List.mem_map.mp hmem
    obtain ⟨uri, -, -, hget⟩ := h.exists_uri ha
    exact ⟨uri, hget⟩
  · rintro ⟨uri, hget⟩
    exact (d.mem_toList_iff document).mpr ⟨_, hget⟩

private theorem pairwise_toList : d.toList.Pairwise fun a b =>
    ∃ uri uri', a.uri = .str uri ∧ b.uri = .str uri' ∧ OpenedBefore history uri uri' := by
  apply List.pairwise_map.mpr
  refine (List.pairwise_map.mp h.order).imp_of_mem ?_
  rintro a b ha hb ⟨uri, uri', hkey, hkey', hbefore⟩
  obtain ⟨stored, hstored, huri, -⟩ := h.exists_uri ha
  obtain ⟨stored', hstored', huri', -⟩ := h.exists_uri hb
  rw [hstored, Key.text.injEq] at hkey
  rw [hstored', Key.text.injEq] at hkey'
  exact ⟨stored, stored', huri, huri', hkey ▸ hkey' ▸ hbefore⟩

theorem write (w : Write) : (d.apply (.write w)).Reflects (history ++ [.write w]) := by
  have hkey (uri : Text) : (∃ e, Live (history ++ [.write w]) uri e) ↔
      (∃ e, Live history uri e) ∨ w.uri = uri := by
    simp [live_write_iff, exists_or]
  have hopening {uri : Text} {e : Nat × Write} (he : Opening (Live history uri) e) :
      Opening (Live (history ++ [.write w]) uri) e := by
    by_cases huri : w.uri = uri
    · subst huri
      exact opening_write_iff.mpr (.inl he)
    · rw [live_write_of_ne huri]
      exact he
  have hbefore {a b : Key} (hab : ∃ uri uri', a = .text uri ∧ b = .text uri' ∧
      OpenedBefore history uri uri') : ∃ uri uri', a = .text uri ∧ b = .text uri' ∧
        OpenedBefore (history ++ [.write w]) uri uri' := by
    obtain ⟨uri, uri', ha, hb, e, e', he, he', hlt⟩ := hab
    exact ⟨uri, uri', ha, hb, e, e', hopening he, hopening he', hlt⟩
  rw [apply_write]
  refine ⟨?_, ?_, ?_⟩
  · intro key
    rw [mem_keys_iff_isSome, get?_insert]
    by_cases hwritten : key = .text w.uri
    · simp [hwritten, hkey]
    · rw [if_neg hwritten, ← mem_keys_iff_isSome, h.keys]
      simp only [hkey]
      constructor
      · rintro ⟨uri, hkey, hlive⟩
        exact ⟨uri, hkey, .inl hlive⟩
      · rintro ⟨uri, hkey, hlive | rfl⟩
        · exact ⟨uri, hkey, hlive⟩
        · exact absurd hkey hwritten
  · have hkeys : (d.insert (.text w.uri) (w.document d)).table.keys =
        if .text w.uri ∈ d.table.keys then d.table.keys
        else d.table.keys ++ [.text w.uri] := Table.keys_assign _ _ _
    rw [hkeys]
    split
    · exact h.order.imp hbefore
    · next hclosed =>
      -- a document that was not open comes last, and all others were opened before it
      have hnone : ¬ ∃ e, Live history w.uri e := by
        rwa [mem_keys_iff_isSome, h.isSome_get?_iff] at hclosed
      rw [List.pairwise_append]
      refine ⟨h.order.imp hbefore, List.pairwise_singleton _ _, ?_⟩
      intro a ha b hb
      obtain ⟨uri, rfl, hlive⟩ := (h.keys a).mp ha
      obtain ⟨e, he⟩ := exists_opening hlive
      rw [List.mem_singleton.mp hb]
      exact ⟨uri, w.uri, rfl, rfl, e, _, hopening he, opening_write_iff.mpr (.inr ⟨rfl, hnone⟩),
        he.live.lt_length⟩
  · intro uri document hget
    rw [get?_insert] at hget
    by_cases huri : w.uri = uri
    · subst huri
      rw [if_pos rfl, Option.some.injEq] at hget
      rw [← hget]
      exact w.stored_document (h.get?_eq_none_iff w.uri).mp (h.stored w.uri)
    · have hne : Key.text uri ≠ .text w.uri := fun heq => huri (Key.text.inj heq).symm
      rw [if_neg hne] at hget
      rw [live_write_of_ne huri]
      exact h.stored uri document hget

theorem close (closed : Text) :
    (d.apply (.close closed)).Reflects (history ++ [.close closed]) := by
  have hkeys : (d.erase (.text closed)).table.keys =
      d.table.keys.filter (fun key => key ≠ .text closed) := by
    simp [erase, Table.erase, Table.keys, List.filter_map, Function.comp_def]
  rw [apply_close]
  refine ⟨?_, ?_, ?_⟩
  · intro key
    rw [hkeys, List.mem_filter, h.keys]
    simp only [live_close_iff, decide_eq_true_eq, exists_and_right]
    constructor
    · rintro ⟨⟨uri, rfl, hlive⟩, hne⟩
      exact ⟨uri, rfl, hlive, fun heq => hne (congrArg _ heq.symm)⟩
    · rintro ⟨uri, rfl, hlive, hne⟩
      exact ⟨⟨uri, rfl, hlive⟩, fun heq => hne (Key.text.inj heq).symm⟩
  · rw [hkeys]
    refine (h.order.filter _).imp_of_mem ?_
    rintro a b ha hb ⟨uri, uri', rfl, rfl, e, e', he, he', hlt⟩
    have hkept {uri : Text} (hmem : Key.text uri ∈
        d.table.keys.filter (fun key => key ≠ .text closed)) :
        Live (history ++ [.close closed]) uri = Live history uri := by
      apply live_close_of_ne
      rintro rfl
      simpa using (List.mem_filter.mp hmem).2
    refine ⟨uri, uri', rfl, rfl, e, e', ?_, ?_, hlt⟩
    · rw [hkept ha]
      exact he
    · rw [hkept hb]
      exact he'
  · intro uri document hget
    rw [get?_erase] at hget
    split at hget
    · cases hget
    · next hne =>
      rw [live_close_of_ne fun heq => hne (congrArg _ heq.symm)]
      exact h.stored uri document hget

end Reflects

private theorem reflects_after (history : List Operation) : (after history).Reflects history := by
  induction history using List.reverseRecOn with
  | nil =>
      have hnone (uri : Text) : ¬ ∃ e, Live [] uri e := by
        rintro ⟨e, he⟩
        exact absurd he.lt_length (Nat.not_lt_zero _)
      refine ⟨?_, List.Pairwise.nil, ?_⟩
      · intro key
        refine iff_of_false (List.not_mem_nil) ?_
        rintro ⟨uri, -, hlive⟩
        exact hnone uri hlive
      · intro uri document hget
        cases hget
  | append_singleton history o ih =>
      rw [after_concat]
      cases o with
      | write w => exact ih.write w
      | close uri => exact ih.close uri

/-- What is stored after any sequence of operations, from none. A document is missing if no write
of it comes after its last close. Else its text is that of its last write, and its version that of
the last write that opened it, replaced it or brought a version. The documents that are open are
listed once each, in the order in which they became open, and closing one tells whether it was. -/
theorem last_write_wins (history : List Operation) :
    let d := after history
    (∀ uri, (d.get? (.text uri) = none ↔ ¬ ∃ e, Live history uri e) ∧
      (d.contains (.text uri) = true ↔ ∃ e, Live history uri e)) ∧
    (∀ uri document, d.get? (.text uri) = some document →
      Stored (Live history uri) uri document) ∧
    (∀ document, document ∈ d.toList ↔ ∃ uri, d.get? (.text uri) = some document) ∧
    (d.toList.map Document.uri).Nodup ∧
    (d.toList.Pairwise fun a b =>
      ∃ uri uri', a.uri = .str uri ∧ b.uri = .str uri' ∧ OpenedBefore history uri uri') ∧
    d.size = d.toList.length ∧
    ∀ uri, ∃ wasOpen, d.close (.str uri) = .ok (after (history ++ [.close uri]), wasOpen) ∧
      (wasOpen = true ↔ ∃ e, Live history uri e) := by
  intro d
  have h : d.Reflects history := reflects_after history
  refine ⟨?_, h.stored, h.mem_toList_iff_exists, ?_, h.pairwise_toList, ?_, ?_⟩
  · intro uri
    exact ⟨h.get?_eq_none_iff uri, h.isSome_get?_iff uri⟩
  · apply List.pairwise_map.mpr
    refine h.pairwise_toList.imp ?_
    rintro a b ⟨uri, uri', ha, hb, hbefore⟩ hsame
    rw [ha, hb, Json.str.injEq] at hsame
    exact hbefore.ne hsame
  · simp [size, toList, Table.size, Table.values]
  · intro uri
    rw [after_concat, apply_close, close_of_key _ rfl]
    exact ⟨_, rfl, h.isSome_get?_iff uri⟩

/-- An update without a version keeps the one before it, and a document that is closed and handed
over again comes last. -/
theorem last_write_wins_reopened :
    let a : Text := ['a']
    let b : Text := ['b']
    let history : List Operation :=
      [.write ⟨.insert, a, .null, some (.int 1)⟩, .write ⟨.update, b, .null, none⟩,
        .write ⟨.update, b, .bool true, some (.int 2)⟩, .write ⟨.update, b, .bool false, none⟩,
        .close a, .write ⟨.update, a, .bool true, none⟩]
    let stored : Document := ⟨.str b, .bool false, some (.int 2)⟩
    (after history).toList = [stored, ⟨.str a, .bool true, none⟩] ∧
      (after history).get? (.text b) = some stored ∧ Stored (Live history b) b stored := by
  intro a b history stored
  have hget : (after history).get? (.text b) = some stored := by decide
  exact ⟨by decide, hget, (last_write_wins history).2.1 b stored hget⟩

end Documents

end TeachAsm
