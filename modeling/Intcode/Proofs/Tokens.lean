import Mathlib.Data.List.TakeWhile
import Intcode.Proofs.Grammar

/-!
# Intcode.Proofs.Tokens

Where the tokens of a text stand, and which of them is told when one is no word.

A text is cut at line feeds into lines and a line at commas into fields. In every field a word has
to stand, but for a line that is blank and for what comes behind a comma at the end of a line.
`TextFields` says so of any text, whether it can be read or not.

* `tokens_of_fields`         : the tokens are the fields without the blanks around them.
* `readTokens_eq_error_iff`  : reading ends at the first token that is no word.
* `parse_joined`             : two texts with a line feed between them are read one by one.
-/

namespace Intcode

namespace Text

/-- Blanks around a text are trimmed with those that it has itself. -/
theorem trim_pad {before s after : List Char} (hbefore : ∀ c ∈ before, isBlank c = true)
    (hafter : ∀ c ∈ after, isBlank c = true) : trim (before ++ s ++ after) = trim s := by
  rw [trim, trim, List.append_assoc, List.dropWhile_append_of_pos hbefore,
    List.dropWhile_append]
  split
  · rename_i hs
    have hs : s.dropWhile isBlank = [] := List.isEmpty_iff.1 hs
    rw [hs, List.dropWhile_eq_nil_iff.2 hafter]
  · have hafter' : ∀ c ∈ after.reverse, isBlank c = true := by
      intro c hc
      exact hafter c (List.mem_reverse.1 hc)
    rw [List.reverse_append, List.dropWhile_append_of_pos hafter']

theorem trim_of_blank {s : List Char} (h : ∀ c ∈ s, isBlank c = true) : trim s = [] := by
  simp [trim, List.dropWhile_eq_nil_iff.2 h]

end Text

namespace ProgramText

open Text

/-! ## Fields -/

/-- What stands between commas. -/
inductive Fields : List Char → List (List Char) → Prop where
  | one {cs : List Char} : ',' ∉ cs → Fields cs [cs]
  | more {cs rest : List Char} {fs : List (List Char)} :
      ',' ∉ cs → Fields rest fs → Fields (cs ++ ',' :: rest) (cs :: fs)

/-- The fields of a line in which a word has to stand. -/
inductive LineFields : List Char → List (List Char) → Prop where
  | blank {line : List Char} : (∀ c ∈ line, isBlank c = true) → LineFields line []
  | full {line last : List Char} {fs : List (List Char)} :
      Fields line (fs ++ [last]) → (∃ c ∈ last, isBlank c = false) → LineFields line (fs ++ [last])
  | comma {cs after : List Char} {fs : List (List Char)} :
      Fields cs fs → (∀ c ∈ after, isBlank c = true) → LineFields (cs ++ ',' :: after) fs

/-- The fields of a text in which a word has to stand. -/
inductive TextFields : List Char → List (List Char) → Prop where
  | last {line : List Char} {fs : List (List Char)} :
      '\n' ∉ line → LineFields line fs → TextFields line fs
  | more {line rest : List Char} {fs gs : List (List Char)} :
      '\n' ∉ line → LineFields line fs → TextFields rest gs →
      TextFields (line ++ '\n' :: rest) (fs ++ gs)

/-- A word stands in the field, maybe with blanks around it. -/
def Legible (field : List Char) : Prop := ∃ w : Word, Spells (trim field) w.toInt

theorem Fields.splitOn_eq {cs : List Char} {fs : List (List Char)} (h : Fields cs fs) :
    cs.splitOn ',' = fs := by
  induction h with
  | one hc => exact List.splitOn_eq_singleton hc
  | more hc _ ih => rw [List.splitOn_append_cons_self_of_not_mem hc, ih]

/-- Every text has fields. -/
theorem exists_fields (cs : List Char) : ∃ fs, Fields cs fs := by
  by_cases hc : ',' ∈ cs
  · obtain ⟨first, rest, hcs, hf⟩ := List.eq_append_cons_of_mem hc
    obtain ⟨fs, hfs⟩ := exists_fields rest
    exact ⟨first :: fs, hcs ▸ .more hf hfs⟩
  · exact ⟨[cs], .one hc⟩
termination_by cs.length
decreasing_by
  rw [hcs]
  simp
  omega

theorem Fields.snoc {cs last : List Char} {fs : List (List Char)} (h : Fields cs fs)
    (hlast : ',' ∉ last) : Fields (cs ++ ',' :: last) (fs ++ [last]) := by
  induction h with
  | one hc => exact .more hc (.one hlast)
  | more hc _ ih =>
    rw [List.append_assoc, List.cons_append, List.cons_append]
    exact .more hc ih

/-- The last field stands behind the last comma. -/
theorem Fields.init {line last : List Char} {fs : List (List Char)}
    (h : Fields line (fs ++ [last])) :
    fs = [] ∧ line = last ∨ ∃ cs, line = cs ++ ',' :: last ∧ Fields cs fs := by
  induction fs generalizing line with
  | nil =>
    cases h with
    | one hc => exact .inl ⟨rfl, rfl⟩
    | more hc hr => cases hr
  | cons f fs ih =>
    right
    rw [List.cons_append] at h
    generalize hall : fs ++ [last] = all at h
    cases h with
    | one hc => simp at hall
    | @more _ rest _ hc hr =>
      subst hall
      rcases ih hr with ⟨rfl, rfl⟩ | ⟨cs, rfl, hcs⟩
      · exact ⟨f, rfl, .one hc⟩
      · exact ⟨f ++ ',' :: cs, by simp, .more hc hcs⟩

theorem comma_not_mem {s : List Char} (h : ∀ c ∈ s, isBlank c = true) : ',' ∉ s :=
  not_mem_of_blank (by decide) h

/-- Blanks at its two ends do not change what stands in the fields of a line. -/
theorem Fields.pad {cs before after : List Char} {fs : List (List Char)} (h : Fields cs fs)
    (hb : ∀ c ∈ before, isBlank c = true) (ha : ∀ c ∈ after, isBlank c = true) :
    ((before ++ cs ++ after).splitOn ',').map trim = fs.map trim := by
  have hbefore := comma_not_mem hb
  have hafter := comma_not_mem ha
  induction h generalizing before with
  | one hc =>
    rw [List.splitOn_eq_singleton (by simp [hbefore, hc, hafter]), List.map_singleton,
      List.map_singleton, trim_pad hb ha]
  | @more cs rest fs hc _ ih =>
    have hcut : before ++ (cs ++ ',' :: rest) ++ after =
        (before ++ cs) ++ ',' :: ([] ++ rest ++ after) := by simp
    have htrim : trim (before ++ cs ++ []) = trim cs := trim_pad hb (by simp)
    rw [List.append_nil] at htrim
    rw [hcut, List.splitOn_append_cons_self_of_not_mem (by simp [hbefore, hc]), List.map_cons,
      List.map_cons, htrim, ih (by simp) (by simp)]

/-! ## Lines -/

theorem exists_lineFields (line : List Char) : ∃ fs, LineFields line fs := by
  obtain ⟨all, hall⟩ := exists_fields line
  have hne : all ≠ [] := by
    rintro rfl
    cases hall
  obtain ⟨fs, last, rfl⟩ : ∃ fs last, all = fs ++ [last] :=
    ⟨all.dropLast, all.getLast hne, (List.dropLast_concat_getLast hne).symm⟩
  by_cases hlast : ∃ c ∈ last, isBlank c = false
  · exact ⟨_, .full hall hlast⟩
  · have hblank : ∀ c ∈ last, isBlank c = true := by
      intro c hc
      by_contra hb
      exact hlast ⟨c, hc, by simpa using hb⟩
    rcases hall.init with ⟨rfl, rfl⟩ | ⟨cs, rfl, hcs⟩
    · exact ⟨[], .blank hblank⟩
    · exact ⟨fs, .comma hcs hblank⟩

/-- A line that is trimmed ends with a comma only if nothing stands behind it. -/
theorem Fields.getLast?_trim {line last : List Char} {fs : List (List Char)}
    (h : Fields line (fs ++ [last])) {c : Char} (hc : c ∈ last) (hcb : isBlank c = false) :
    trim line ≠ [] ∧ (trim line).getLast? ≠ some ',' := by
  obtain ⟨before, after, hline, hb, ha⟩ := exists_eq_trim line
  have hmem : c ∈ line := by
    rcases h.init with ⟨-, rfl⟩ | ⟨cs, rfl, -⟩
    · exact hc
    · simp [hc]
  constructor
  · intro hnil
    rw [hline, hnil, List.append_nil, List.mem_append] at hmem
    rcases hmem with hmem | hmem
    · simp [hb c hmem] at hcb
    · simp [ha c hmem] at hcb
  · intro hcomma
    obtain ⟨body, hbody⟩ := List.getLast?_eq_some_iff.1 hcomma
    obtain ⟨gs, hgs⟩ := exists_fields (before ++ body)
    have hsnoc := hgs.snoc (comma_not_mem ha)
    rw [hbody] at hline
    have hsame : before ++ body ++ ',' :: after = line := by simp [hline]
    rw [hsame] at hsnoc
    have hall := h.splitOn_eq.symm.trans hsnoc.splitOn_eq
    obtain ⟨-, hlast⟩ := List.append_inj' hall rfl
    cases hlast
    simp [ha c hc] at hcb

theorem LineFields.tokens {line : List Char} {fs : List (List Char)} (h : LineFields line fs) :
    lineTokens (trim line) = fs.map trim := by
  cases h with
  | blank hb => simp [trim_of_blank hb, lineTokens]
  | @full _ last fs hf hlast =>
    obtain ⟨c, hc, hcb⟩ := hlast
    obtain ⟨hne, hcomma⟩ := hf.getLast?_trim hc hcb
    obtain ⟨before, after, hline, hb, ha⟩ := exists_eq_trim line
    obtain ⟨gs, hgs⟩ := exists_fields (trim line)
    have hpad := hgs.pad hb ha
    rw [← hline, hf.splitOn_eq] at hpad
    rw [lineTokens_of_getLast? hne hcomma, hgs.splitOn_eq, hpad]
  | @comma cs after fs hf ha =>
    -- The comma at the end of the line keeps the blanks in front of it from being trimmed.
    have hb : ∀ c ∈ cs.takeWhile isBlank, isBlank c = true := List.all_eq_true.1 List.all_takeWhile
    obtain ⟨gs, hgs⟩ := exists_fields (cs.dropWhile isBlank)
    have hcs : cs.takeWhile isBlank ++ cs.dropWhile isBlank = cs := List.takeWhile_append_dropWhile
    have hpad := hgs.pad hb (List.forall_mem_nil _)
    rw [List.append_nil, hcs, hf.splitOn_eq] at hpad
    have hhead : ∀ c ∈ (cs.dropWhile isBlank ++ [',']).head?, isBlank c = false := by
      intro c hc
      cases hd : cs.dropWhile isBlank with
      | nil =>
        rw [hd] at hc
        cases hc
        decide
      | cons d rest =>
        have hnot := List.head?_dropWhile_not isBlank cs
        rw [hd] at hc hnot
        cases hc
        simpa using hnot
    have hlast : ∀ c ∈ (cs.dropWhile isBlank ++ [',']).getLast?, isBlank c = false := by
      intro c hc
      rw [List.getLast?_concat] at hc
      cases hc
      decide
    have hline : cs ++ ',' :: after =
        cs.takeWhile isBlank ++ (cs.dropWhile isBlank ++ [',']) ++ after := by
      rw [← List.append_assoc, hcs]
      simp
    rw [hline, trim_append hb ha hhead hlast, lineTokens_comma, hgs.splitOn_eq, hpad]

/-! ## Texts -/

/-- Every text has fields. -/
theorem exists_textFields (text : List Char) : ∃ fs, TextFields text fs := by
  by_cases hn : '\n' ∈ text
  · obtain ⟨line, rest, htext, hl⟩ := List.eq_append_cons_of_mem hn
    obtain ⟨fs, hfs⟩ := exists_lineFields line
    obtain ⟨gs, hgs⟩ := exists_textFields rest
    exact ⟨fs ++ gs, htext ▸ .more hl hfs hgs⟩
  · obtain ⟨fs, hfs⟩ := exists_lineFields text
    exact ⟨fs, .last hn hfs⟩
termination_by text.length
decreasing_by
  rw [htext]
  simp
  omega

/-- **The tokens are the fields without the blanks around them.** -/
theorem tokens_of_fields {text : List Char} {fs : List (List Char)} (h : TextFields text fs) :
    tokens text = fs.map trim := by
  induction h with
  | last hn hl => rw [tokens_of_not_mem hn, hl.tokens]
  | more hn hl _ ih => rw [tokens_append, tokens_of_not_mem hn, hl.tokens, ih, List.map_append]

/-! ## Tokens that are no words -/

theorem readTokens_of_bad {before after : List (List Char)} {token : List Char}
    {flaw : NumeralFlaw} (hwords : ∀ t ∈ before, ∃ w, Reads t w)
    (hflaw : readSigned token = .error flaw) (index : Nat) :
    readTokens index (before ++ token :: after) =
      .error ⟨index + before.length, token, flaw⟩ := by
  induction before generalizing index with
  | nil => simp [readTokens, hflaw]
  | cons t before ih =>
    obtain ⟨w, hw⟩ := hwords t (by simp)
    have hw : readSigned t = .ok w := hw
    have hrest := ih (fun s hs => hwords s (by simp [hs])) (index + 1)
    simp only [List.cons_append, readTokens, hw, hrest, List.length_cons]
    rw [Nat.add_assoc, Nat.add_comm 1]

theorem exists_bad_of_readTokens {index : Nat} {ts : List (List Char)} {bad : BadToken}
    (h : readTokens index ts = .error bad) :
    ∃ before token after flaw, ts = before ++ token :: after ∧ (∀ t ∈ before, ∃ w, Reads t w) ∧
      readSigned token = .error flaw ∧ bad = ⟨index + before.length, token, flaw⟩ := by
  induction ts generalizing index with
  | nil => cases h
  | cons t rest ih =>
    rw [readTokens] at h
    cases ht : readSigned t with
    | error flaw =>
      rw [ht] at h
      cases h
      exact ⟨[], t, rest, flaw, rfl, by simp, ht, rfl⟩
    | ok w =>
      cases hr : readTokens (index + 1) rest with
      | ok ws => simp [ht, hr] at h
      | error bad' =>
        simp only [ht, hr, Except.error.injEq] at h
        subst h
        obtain ⟨before, token, after, flaw, rfl, hwords, hflaw, rfl⟩ := ih hr
        refine ⟨t :: before, token, after, flaw, rfl, ?_, hflaw, ?_⟩
        · intro s hs
          rcases List.mem_cons.1 hs with rfl | hs
          · exact ⟨w, ht⟩
          · exact hwords s hs
        · rw [List.length_cons, Nat.add_assoc, Nat.add_comm 1]

/-- **Reading ends at the first token that is no word.** -/
theorem readTokens_eq_error_iff {index : Nat} {ts : List (List Char)} {bad : BadToken} :
    readTokens index ts = .error bad ↔
      ∃ before token after flaw, ts = before ++ token :: after ∧ (∀ t ∈ before, ∃ w, Reads t w) ∧
        readSigned token = .error flaw ∧ bad = ⟨index + before.length, token, flaw⟩ := by
  constructor
  · exact exists_bad_of_readTokens
  · rintro ⟨before, token, after, flaw, rfl, hwords, hflaw, rfl⟩
    exact readTokens_of_bad hwords hflaw index

theorem parse_eq_ok_iff {text : String} {ws : List Word} :
    parse text = .ok ws ↔ List.Forall₂ Reads (tokens text.toList) ws := by
  rw [← @readTokens_eq_ok_iff 0, parse, parseChars]
  cases readTokens 0 (tokens text.toList) <;> simp [Except.mapError]

theorem parse_eq_error_iff {text : String} {e : Error} :
    parse text = .error e ↔
      ∃ bad, readTokens 0 (tokens text.toList) = .error bad ∧ e = bad.error := by
  rw [parse, parseChars]
  cases readTokens 0 (tokens text.toList) <;> simp [Except.mapError, eq_comm]

theorem tokens_joined (a b : String) :
    tokens (a ++ "\n" ++ b).toList = tokens a.toList ++ tokens b.toList := by
  rw [← tokens_append]
  simp

theorem not_legible_iff {field : List Char} :
    ¬ Legible field ↔ ∃ flaw, readSigned (trim field) = .error flaw := by
  simp only [Legible, ← readSigned_eq_ok_iff]
  cases readSigned (trim field) <;> simp

/-- What the error for a token that is no word tells. -/
theorem error_tells (bad : BadToken) :
    bad.error.kind = .parseFailed ∧
      bad.error.value? "index" = some (decimal bad.index) ∧
      bad.error.value? "token" = some (String.ofList bad.token) ∧
      bad.error.source = some bad.flaw.message :=
  ⟨rfl, rfl, rfl, rfl⟩

/-- A text is refused for its first field that is not legible. -/
theorem parse_eq_error_iff_fields {text : String} {fields : List (List Char)}
    (hf : TextFields text.toList fields) {e : Error} :
    parse text = .error e ↔
      ∃ before field after flaw, fields = before ++ field :: after ∧ (∀ f ∈ before, Legible f) ∧
        ¬ Legible field ∧ readSigned (trim field) = .error flaw ∧
        e = BadToken.error ⟨before.length, trim field, flaw⟩ := by
  simp only [parse_eq_error_iff, readTokens_eq_error_iff, tokens_of_fields hf, Nat.zero_add]
  constructor
  · rintro ⟨bad, ⟨ts, token, ts', flaw, heq, hwords, hflaw, rfl⟩, rfl⟩
    obtain ⟨before, tail, rfl, rfl, htail⟩ := List.map_eq_append_iff.1 heq
    obtain ⟨field, after, rfl, rfl, rfl⟩ := List.map_eq_cons_iff.1 htail
    refine ⟨before, field, after, flaw, rfl, ?_, not_legible_iff.2 ⟨flaw, hflaw⟩, hflaw, ?_⟩
    · intro f hfb
      obtain ⟨w, hw⟩ := hwords (trim f) (List.mem_map_of_mem hfb)
      exact ⟨w, readSigned_eq_ok_iff.1 hw⟩
    · rw [List.length_map]
  · rintro ⟨before, field, after, flaw, rfl, hwords, -, hflaw, rfl⟩
    refine ⟨_, ⟨before.map trim, trim field, after.map trim, flaw, by simp, ?_, hflaw, rfl⟩, ?_⟩
    · intro t ht
      obtain ⟨f, hfb, rfl⟩ := List.mem_map.1 ht
      obtain ⟨w, hw⟩ := hwords f hfb
      exact ⟨w, readSigned_eq_ok_iff.2 hw⟩
    · rw [List.length_map]

/-- **Two texts with a line feed between them are read one by one.** If both can be read, the words
of the second one follow those of the first one. If the first one cannot be read, the error is the
same; if only the second one cannot, its error counts the words of the first one in. An error tells
how many legible fields there are before the first that is not, what stands in that one without the
blanks around it, and what is wrong with it. -/
theorem parse_joined (a b : String) :
    (∀ ws vs, parse a = .ok ws → parse b = .ok vs → parse (a ++ "\n" ++ b) = .ok (ws ++ vs)) ∧
    (∀ e, parse a = .error e → parse (a ++ "\n" ++ b) = .error e) ∧
    (∀ ws e, parse a = .ok ws → parse b = .error e → ∃ bad : BadToken, e = bad.error ∧
      parse (a ++ "\n" ++ b) =
        .error (BadToken.error ⟨ws.length + bad.index, bad.token, bad.flaw⟩)) ∧
    (∃ fields, TextFields a.toList fields ∧ ∀ e, parse a = .error e ↔
      ∃ before field after flaw, fields = before ++ field :: after ∧ (∀ f ∈ before, Legible f) ∧
        ¬ Legible field ∧ readSigned (trim field) = .error flaw ∧
        e = BadToken.error ⟨before.length, trim field, flaw⟩) ∧
    ∀ bad : BadToken, bad.error.kind = .parseFailed ∧
      bad.error.value? "index" = some (decimal bad.index) ∧
      bad.error.value? "token" = some (String.ofList bad.token) ∧
      bad.error.source = some bad.flaw.message := by
  refine ⟨fun ws vs ha hb => ?_, fun e ha => ?_, fun ws e ha hb => ?_, ?_, error_tells⟩
  · rw [parse_eq_ok_iff] at ha hb ⊢
    rw [tokens_joined]
    exact List.rel_append ha hb
  · obtain ⟨bad, hbad, rfl⟩ := parse_eq_error_iff.1 ha
    refine parse_eq_error_iff.2 ⟨bad, ?_, rfl⟩
    obtain ⟨before, token, after, flaw, heq, hwords, hflaw, rfl⟩ := exists_bad_of_readTokens hbad
    rw [tokens_joined, heq, List.append_assoc, List.cons_append]
    exact readTokens_of_bad hwords hflaw 0
  · obtain ⟨bad, hbad, rfl⟩ := parse_eq_error_iff.1 hb
    refine ⟨bad, rfl, parse_eq_error_iff.2 ⟨_, ?_, rfl⟩⟩
    obtain ⟨before, token, after, flaw, heq, hwords, hflaw, rfl⟩ := exists_bad_of_readTokens hbad
    have ha := parse_eq_ok_iff.1 ha
    have hread : ∀ t ∈ tokens a.toList, ∃ w, Reads t w :=
      ((List.forall₂_and_left _ _).1 (ha.imp fun t w h => ⟨⟨w, h⟩, h⟩)).1
    have hall : ∀ t ∈ tokens a.toList ++ before, ∃ w, Reads t w := by
      intro t ht
      rcases List.mem_append.1 ht with ht | ht
      · exact hread t ht
      · exact hwords t ht
    rw [tokens_joined, heq, ← List.append_assoc, readTokens_of_bad hall hflaw 0, List.length_append,
      ha.length_eq, Nat.zero_add, Nat.zero_add]
  · obtain ⟨fields, hf⟩ := exists_textFields a.toList
    exact ⟨fields, hf, fun e => parse_eq_error_iff_fields hf⟩

/-- The first text ends with a comma and a carriage return, which the line feed makes the end of a
line. In the second one the blank within a token is not trimmed; the empty token behind it does not
come to be read. -/
theorem parse_joined_returnLineFeed :
    let e : Error := BadToken.error ⟨1, "x y".toList, .badDigit⟩
    parse "1, 2 ,\r" = .ok [1, 2] ∧ parse "3, x y ,,5" = .error e ∧
      ∃ bad : BadToken, e = bad.error ∧ parse ("1, 2 ,\r" ++ "\n" ++ "3, x y ,,5") =
        .error (BadToken.error ⟨2 + bad.index, bad.token, bad.flaw⟩) := by
  have ha : parse "1, 2 ,\r" = .ok [1, 2] := by
    rw [parse, show parseChars "1, 2 ,\r".toList = .ok [1, 2] from rfl]
    rfl
  have hb : parse "3, x y ,,5" = .error (BadToken.error ⟨1, "x y".toList, .badDigit⟩) := by
    rw [parse, show parseChars "3, x y ,,5".toList = .error ⟨1, "x y".toList, .badDigit⟩ from rfl]
    rfl
  have h := (parse_joined _ _).2.2.1 _ _ ha hb
  exact ⟨ha, hb, h⟩

end ProgramText
end Intcode
