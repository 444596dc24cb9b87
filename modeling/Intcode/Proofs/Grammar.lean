import Mathlib.Data.List.Forall2
import Intcode.Proofs.Numerals
import Intcode.ProgramText

/-!
# Intcode.Proofs.Grammar

The grammar of program texts, and that it is the one which is read.

A text is written line by line; a line is blank, or it has words with commas between them and
perhaps a comma at its end. Blanks can stand around every word and every comma. `Rendering` says so
without taking a text apart: there is no splitting and no trimming in it.

* `line_iff`                  : the tokens of a line spell words just when the line is written so.
* `tokens_append`             : a line feed keeps what is before it from what is behind it.
* `parse_eq_ok_iff_rendering` : a text is read as the words of which it is a rendering.
-/

namespace Intcode
namespace ProgramText

open Text

/-- Blanks within a line. -/
def Blanks (s : List Char) : Prop := ∀ c ∈ s, isBlank c = true ∧ c ≠ '\n'

/-- A word with blanks around it. -/
inductive Entry : List Char → Word → Prop where
  | mk {before token after : List Char} {w : Word} :
      Blanks before → Spells token w.toInt → Blanks after → Entry (before ++ token ++ after) w

/-- At least one word, with commas between words. -/
inductive Entries : List Char → List Word → Prop where
  | one {cs : List Char} {w : Word} : Entry cs w → Entries cs [w]
  | more {cs rest : List Char} {w : Word} {ws : List Word} :
      Entry cs w → Entries rest ws → Entries (cs ++ ',' :: rest) (w :: ws)

/-- A line and the words on it. -/
inductive Line : List Char → List Word → Prop where
  | blank {cs : List Char} : Blanks cs → Line cs []
  | words {cs : List Char} {ws : List Word} : Entries cs ws → Line cs ws
  | comma {cs after : List Char} {ws : List Word} :
      Entries cs ws → Blanks after → Line (cs ++ ',' :: after) ws

/-- A text and the words in it. The last line need not be ended. -/
inductive Rendering : List Char → List Word → Prop where
  | last {cs : List Char} {ws : List Word} : Line cs ws → Rendering cs ws
  | lineFeed {cs rest : List Char} {ws vs : List Word} :
      Line cs ws → Rendering rest vs → Rendering (cs ++ '\n' :: rest) (ws ++ vs)
  | returnLineFeed {cs rest : List Char} {ws vs : List Word} :
      Line cs ws → Rendering rest vs → Rendering (cs ++ '\r' :: '\n' :: rest) (ws ++ vs)

/-- What a token has to be to be read as a word. -/
def Reads (token : List Char) (w : Word) : Prop := readSigned token = .ok w

/-! ## Blanks and entries -/

theorem Blanks.append {s s' : List Char} (h : Blanks s) (h' : Blanks s') : Blanks (s ++ s') := by
  intro c hc
  rcases List.mem_append.1 hc with hc | hc
  · exact h c hc
  · exact h' c hc

theorem Blanks.not_mem {s : List Char} (h : Blanks s) : '\n' ∉ s ∧ ',' ∉ s := by
  constructor
  · intro hc
    exact (h _ hc).2 rfl
  · exact not_mem_of_blank (by decide) fun c hc => (h c hc).1

theorem Blanks.blank {s : List Char} (h : Blanks s) : ∀ c ∈ s, isBlank c = true :=
  fun c hc => (h c hc).1

theorem blanks_of_not_mem {s : List Char} (h : ∀ c ∈ s, isBlank c = true) (hs : '\n' ∉ s) :
    Blanks s := by
  intro c hc
  refine ⟨h c hc, ?_⟩
  rintro rfl
  exact hs hc

theorem blanks_nil : Blanks [] := by
  intro c hc
  simp at hc

theorem Entry.pad {cs before after : List Char} {w : Word} (h : Entry cs w) (hb : Blanks before)
    (ha : Blanks after) : Entry (before ++ cs ++ after) w := by
  cases h with
  | @mk b token a _ hb' ht ha' =>
    have h := Entry.mk (hb.append hb') ht (ha'.append ha)
    simpa using h

theorem Entry.not_mem {cs : List Char} {w : Word} (h : Entry cs w) : '\n' ∉ cs ∧ ',' ∉ cs := by
  cases h with
  | mk hb ht ha =>
    have hn : ∀ c, isBlank c = true → c ∉ _ := fun c hc hmem => by
      have := ht.not_blank c hmem
      simp [hc] at this
    have := hn '\n' (by decide)
    simp [hb.not_mem, ha.not_mem, ht.comma_not_mem, this]

/-- An entry is what trims to a token that is read as its word. -/
theorem entry_iff {cs : List Char} {w : Word} :
    Entry cs w ↔ '\n' ∉ cs ∧ Reads (trim cs) w := by
  constructor
  · intro h
    refine ⟨h.not_mem.1, ?_⟩
    cases h with
    | mk hb ht ha =>
      rw [ht.trim_eq hb.blank ha.blank]
      exact readSigned_eq_ok_iff.2 ht
  · rintro ⟨hn, hr⟩
    obtain ⟨before, after, hcs, hb, ha⟩ := exists_eq_trim cs
    rw [hcs] at hn ⊢
    simp only [List.mem_append, not_or] at hn
    exact .mk (blanks_of_not_mem hb hn.1.1) (readSigned_eq_ok_iff.1 hr)
      (blanks_of_not_mem ha hn.2)

/-! ## Lines -/

theorem Entries.pad_left {cs before : List Char} {ws : List Word} (h : Entries cs ws)
    (hb : Blanks before) : Entries (before ++ cs) ws := by
  cases h with
  | one he =>
    have he' := he.pad hb blanks_nil
    rw [List.append_nil] at he'
    exact .one he'
  | more he hr =>
    have he' := he.pad hb blanks_nil
    rw [List.append_nil] at he'
    rw [← List.append_assoc]
    exact .more he' hr

theorem Entries.pad_right {cs after : List Char} {ws : List Word} (h : Entries cs ws)
    (ha : Blanks after) : Entries (cs ++ after) ws := by
  induction h with
  | one he => exact .one (he.pad blanks_nil ha)
  | more he _ ih =>
    rw [List.append_assoc, List.cons_append]
    exact .more he ih

/-- Entries begin and end with a numeral, if it were not for blanks. -/
theorem Entries.tight {cs : List Char} {ws : List Word} (h : Entries cs ws) :
    ∃ before core after, cs = before ++ core ++ after ∧ Blanks before ∧ Blanks after ∧
      Entries core ws ∧ core ≠ [] ∧ (∀ c ∈ core.head?, isBlank c = false) ∧
      ∀ c ∈ core.getLast?, isBlank c = false ∧ c ≠ ',' := by
  induction h with
  | one he =>
    cases he with
    | @mk before token after w hb ht ha =>
      refine ⟨before, token, after, rfl, hb, ha, ?_, ht.ne_nil, ?_, ?_⟩
      · have he := Entry.mk blanks_nil ht blanks_nil
        rw [List.nil_append, List.append_nil] at he
        exact .one he
      · intro c hc
        exact ht.not_blank c (List.mem_of_head? hc)
      · intro c hc
        have hmem := List.mem_of_getLast? hc
        refine ⟨ht.not_blank c hmem, ?_⟩
        rintro rfl
        exact ht.comma_not_mem hmem
  | @more cs rest w ws he _ ih =>
    -- The text begins as its first entry does, and ends as the others do.
    obtain ⟨before', core', after', rfl, hb', ha', hc', hne', -, hlast'⟩ := ih
    cases he with
    | @mk before token after w hb ht ha =>
      refine ⟨before, token ++ after ++ ',' :: (before' ++ core'), after', ?_, hb, ha', ?_, ?_,
        ?_, ?_⟩
      · simp
      · have he := Entry.mk blanks_nil ht ha
        rw [List.nil_append] at he
        exact .more he (hc'.pad_left hb')
      · simp
      · intro c hc
        cases token with
        | nil => exact absurd rfl ht.ne_nil
        | cons d token =>
          cases hc
          exact ht.not_blank _ (by simp)
      · intro c hc
        rw [List.getLast?_append, List.getLast?_cons, List.getLast?_append,
          List.getLast?_eq_some_getLast hne'] at hc
        cases hc
        exact hlast' _ (by simp [List.getLast?_eq_some_getLast hne'])

theorem Entries.not_mem {cs : List Char} {ws : List Word} (h : Entries cs ws) : '\n' ∉ cs := by
  induction h with
  | one he => exact he.not_mem.1
  | more he _ ih =>
    have hn := he.not_mem.1
    simp [hn, ih]

theorem Entries.pieces {cs : List Char} {ws : List Word} (h : Entries cs ws) :
    List.Forall₂ Reads ((cs.splitOn ',').map trim) ws := by
  induction h with
  | one he =>
    rw [List.splitOn_eq_singleton he.not_mem.2]
    exact .cons (entry_iff.1 he).2 .nil
  | more he _ ih =>
    rw [List.splitOn_append_cons_self_of_not_mem he.not_mem.2]
    exact .cons (entry_iff.1 he).2 ih

/-- From one comma to the next there is an entry. -/
theorem entries_of_pieces {cs : List Char} {ws : List Word} (hn : '\n' ∉ cs)
    (h : List.Forall₂ Reads ((cs.splitOn ',').map trim) ws) : Entries cs ws := by
  by_cases hc : ',' ∈ cs
  · obtain ⟨entry, rest, hcs, he⟩ := List.eq_append_cons_of_mem hc
    rw [hcs, List.splitOn_append_cons_self_of_not_mem he] at h
    rw [hcs] at hn ⊢
    simp only [List.mem_append, List.mem_cons, not_or] at hn
    cases h with
    | cons hw hrest =>
      exact .more (entry_iff.2 ⟨hn.1, hw⟩) (entries_of_pieces hn.2.2 hrest)
  · rw [List.splitOn_eq_singleton hc] at h
    cases h with
    | cons hw hrest =>
      cases hrest
      exact .one (entry_iff.2 ⟨hn, hw⟩)
termination_by cs.length
decreasing_by
  rw [hcs]
  simp
  omega

/-! ## Tokens of a line -/

theorem lineTokens_comma (body : List Char) :
    lineTokens (body ++ [',']) = (body.splitOn ',').map trim := by
  simp [lineTokens]

theorem lineTokens_of_getLast? {s : List Char} (hs : s ≠ []) (hlast : s.getLast? ≠ some ',') :
    lineTokens s = (s.splitOn ',').map trim := by
  simp [lineTokens, hs, hlast]

theorem Line.tokens {cs : List Char} {ws : List Word} (h : Line cs ws) :
    List.Forall₂ Reads (lineTokens (trim cs)) ws := by
  cases h with
  | blank hb =>
    have ht : trim cs = [] := by
      have h := @trim_append cs [] [] hb.blank (by simp) (by simp) (by simp)
      simpa using h
    rw [ht]
    exact .nil
  | words he =>
    obtain ⟨before, core, after, rfl, hb, ha, hcore, hne, hfirst, hlast⟩ := he.tight
    rw [trim_append hb.blank ha.blank hfirst fun c hc => (hlast c hc).1,
      lineTokens_of_getLast? hne fun hc => (hlast _ hc).2 rfl]
    exact hcore.pieces
  | @comma cs rest _ he hr =>
    -- The comma at the end of the line keeps the blanks in front of it from being trimmed.
    obtain ⟨before, core, after, rfl, hb, ha, hcore, hne, hfirst, -⟩ := he.tight
    have ht : trim (before ++ core ++ after ++ ',' :: rest) = core ++ after ++ [','] := by
      have hhead : ∀ c ∈ (core ++ after ++ [',']).head?, isBlank c = false := by
        intro c hc
        cases core with
        | nil => exact absurd rfl hne
        | cons d core => exact hfirst c hc
      have hend : ∀ c ∈ (core ++ after ++ [',']).getLast?, isBlank c = false := by
        intro c hc
        rw [List.getLast?_concat] at hc
        cases hc
        decide
      have h := trim_append hb.blank hr.blank hhead hend
      simpa using h
    rw [ht, lineTokens_comma]
    exact (hcore.pad_right ha).pieces

theorem Line.not_mem {cs : List Char} {ws : List Word} (h : Line cs ws) : '\n' ∉ cs := by
  cases h with
  | blank hb => exact hb.not_mem.1
  | words he => exact he.not_mem
  | comma he ha =>
    have hn := he.not_mem
    have hn' := ha.not_mem.1
    simp [hn, hn']

/-- The tokens of a line spell words just when the line is written so. -/
theorem line_iff {cs : List Char} {ws : List Word} :
    Line cs ws ↔ '\n' ∉ cs ∧ List.Forall₂ Reads (lineTokens (trim cs)) ws := by
  constructor
  · intro h
    exact ⟨h.not_mem, h.tokens⟩
  · rintro ⟨hn, h⟩
    obtain ⟨before, after, hcs, hb, ha⟩ := exists_eq_trim cs
    generalize trim cs = core at hcs h
    subst hcs
    simp only [List.mem_append, not_or] at hn
    have hb := blanks_of_not_mem hb hn.1.1
    have ha := blanks_of_not_mem ha hn.2
    rcases List.eq_nil_or_concat core with rfl | ⟨body, last, rfl⟩
    · cases h
      rw [List.append_nil]
      exact .blank (hb.append ha)
    · rw [List.concat_eq_append] at hn h ⊢
      by_cases hlast : last = ','
      · subst hlast
        rw [lineTokens_comma] at h
        simp only [List.mem_append, not_or] at hn
        have he := (entries_of_pieces hn.1.2.1 h).pad_left hb
        have hl := Line.comma he ha
        simpa using hl
      · rw [lineTokens_of_getLast? (by simp) (by simpa using hlast)] at h
        exact .words (((entries_of_pieces hn.1.2 h).pad_left hb).pad_right ha)

/-! ## Texts -/

theorem Line.pad_right {cs after : List Char} {ws : List Word} (h : Line cs ws)
    (ha : Blanks after) : Line (cs ++ after) ws := by
  cases h with
  | blank hb => exact .blank (hb.append ha)
  | words he => exact .words (he.pad_right ha)
  | comma he hr =>
    rw [List.append_assoc, List.cons_append]
    exact .comma he (hr.append ha)

/-- Texts that a line feed keeps apart are read one after the other. -/
theorem tokens_append (text rest : List Char) :
    tokens (text ++ '\n' :: rest) = tokens text ++ tokens rest := by
  rw [tokens, List.splitOn_append_cons_self, List.flatMap_append]
  rfl

theorem tokens_of_not_mem {cs : List Char} (h : '\n' ∉ cs) :
    tokens cs = lineTokens (trim cs) := by
  rw [tokens, List.splitOn_eq_singleton h, List.flatMap_singleton]

theorem Rendering.tokens {text : List Char} {ws : List Word} (h : Rendering text ws) :
    List.Forall₂ Reads (tokens text) ws := by
  have hnext {cs rest : List Char} {ws vs : List Word} (hl : Line cs ws)
      (hr : List.Forall₂ Reads (ProgramText.tokens rest) vs) :
      List.Forall₂ Reads (ProgramText.tokens (cs ++ '\n' :: rest)) (ws ++ vs) := by
    rw [tokens_append, tokens_of_not_mem hl.not_mem]
    exact List.rel_append hl.tokens hr
  induction h with
  | last hl =>
    rw [tokens_of_not_mem hl.not_mem]
    exact hl.tokens
  | lineFeed hl _ ih => exact hnext hl ih
  | @returnLineFeed cs rest ws vs hl _ ih =>
    have hreturn : Blanks ['\r'] := by
      intro c hc
      rw [List.mem_singleton.1 hc]
      decide
    have h := hnext (hl.pad_right hreturn) ih
    rwa [List.append_assoc, List.singleton_append] at h

theorem exists_of_forall₂_append {as bs : List (List Char)} {ws : List Word}
    (h : List.Forall₂ Reads (as ++ bs) ws) :
    ∃ us vs, List.Forall₂ Reads as us ∧ List.Forall₂ Reads bs vs ∧ ws = us ++ vs := by
  induction as generalizing ws with
  | nil => exact ⟨[], ws, .nil, h, rfl⟩
  | cons a as ih =>
    cases h with
    | cons ha hrest =>
      obtain ⟨us, vs, hus, hvs, rfl⟩ := ih hrest
      exact ⟨_ :: us, vs, .cons ha hus, hvs, rfl⟩

/-- From one line feed to the next there is a line. -/
theorem rendering_of_tokens {text : List Char} {ws : List Word}
    (h : List.Forall₂ Reads (tokens text) ws) : Rendering text ws := by
  by_cases hn : '\n' ∈ text
  · obtain ⟨line, rest, htext, hl⟩ := List.eq_append_cons_of_mem hn
    rw [htext, tokens_append, tokens_of_not_mem hl] at h
    rw [htext]
    obtain ⟨us, vs, hus, hvs, rfl⟩ := exists_of_forall₂_append h
    exact .lineFeed (line_iff.2 ⟨hl, hus⟩) (rendering_of_tokens hvs)
  · rw [tokens_of_not_mem hn] at h
    exact .last (line_iff.2 ⟨hn, h⟩)
termination_by text.length
decreasing_by
  rw [htext]
  simp
  omega

theorem readTokens_eq_ok_iff {index : Nat} {ts : List (List Char)} {ws : List Word} :
    readTokens index ts = .ok ws ↔ List.Forall₂ Reads ts ws := by
  induction ts generalizing index ws with
  | nil =>
    rw [readTokens]
    constructor
    · intro h
      cases h
      exact .nil
    · intro h
      cases h
      rfl
  | cons token rest ih =>
    rw [readTokens]
    constructor
    · intro h
      cases ht : readSigned token with
      | error flaw => simp [ht] at h
      | ok w =>
        cases hr : readTokens (index + 1) rest with
        | error bad => simp [ht, hr] at h
        | ok vs =>
          simp only [ht, hr, Except.ok.injEq] at h
          subst h
          exact .cons ht (ih.1 hr)
    · intro h
      cases h with
      | cons ht hrest =>
        have ht : readSigned token = .ok _ := ht
        have hr : readTokens (index + 1) rest = .ok _ := ih.2 hrest
        simp [ht, hr]

/-- **Program texts have one grammar.** A text is read as the words of which it is a rendering, and
any other text is refused. In a rendering words are numerals, among them those in decimal. -/
theorem parse_eq_ok_iff_rendering :
    (∀ (text : String) (ws : List Word), parse text = .ok ws ↔ Rendering text.toList ws) ∧
      ∀ w : Word, Spells (decimalChars w.toInt) w.toInt := by
  refine ⟨fun text ws => ?_, fun w => spells_decimalChars w.toInt⟩
  have hread : parse text = .ok ws ↔ readTokens 0 (tokens text.toList) = .ok ws := by
    rw [parse, parseChars]
    cases readTokens 0 (tokens text.toList) <;> simp [Except.mapError]
  constructor
  · intro h
    exact rendering_of_tokens (readTokens_eq_ok_iff.1 (hread.1 h))
  · intro h
    exact hread.2 (readTokens_eq_ok_iff.2 h.tokens)

/-- Two lines of words with a blank line between them, and a text with one comma too many. -/
example :
    parseChars " 1, +02 ,\r\n \n-9223372036854775808 , -0".toList =
      .ok [1, 2, -9223372036854775808, 0] ∧
    parseChars "1,2\n3,,4".toList = .error ⟨3, [], .empty⟩ := ⟨rfl, rfl⟩

end ProgramText
end Intcode
