import DDAG.Gateway.ReadOnly
import DDAG.Connectors.Regions

/-!
# What the statement checks see

Two checks of the validators, in terms of the text they look at.

`hasMultipleStatements` cuts the trailing semicolons off a template before it
strips it.  `multipleStatements_iff` says that this changes nothing before them:
the check is true exactly when `StripDialect` keeps a semicolon of the whole
template that stands before the trailing ones.

`writeStmt` looks for `select\s+.*\s+into`, where a dot matches no line break.
`selectInto_rejected` says that a template with such a clause on one line is always
rejected, and one with a line break in the middle exactly when something else in it
is.
-/

namespace DDAG.Gateway

open Models Machine Regexp
open Connectors

/-! ## Several statements -/

def core (q : Text) : Text := Strings.trimRight (· == ';') (Strings.trimSpace q)

/-- Where `StripDialect` returns on the trimmed template, it keeps the same runes of it without
the trailing semicolons, and the check finds the semicolons it keeps before them. -/
theorem multipleStatements_iff {q st : Text} {d : Dialect}
    (hst : stripDialect (Strings.trimSpace q) d = some st) :
    ∃ ks multiple, keptRunes (Strings.trimSpace q) d = some ks ∧
      keptRunes (core q) d = some (ks.take (core q).length) ∧
      hasMultipleStatements q d = some multiple ∧
      (multiple = true ↔ ∃ i < (core q).length,
        (Strings.trimSpace q)[i]? = some ';' ∧ ks[i]? = some true) := by
  obtain ⟨us, hus, -⟩ := strip_eq_some_iff.mp hst
  obtain ⟨v, hv, hsemi⟩ := Strings.trimRight_split (· == ';') (Strings.trimSpace q)
  change Strings.trimSpace q = core q ++ v at hv
  have hinert : Inert v := by
    intro c hc
    rw [beq_iff_eq.mp (hsemi c hc)]
    exact inert_semicolon
  have hus' := hus
  rw [hv] at hus'
  obtain ⟨ts, hts, hmarks⟩ := marks_append_inert hinert hus'
  refine ⟨marks Lexeme.isKept us, _, keptRunes_eq hus, ?_, hasMultipleStatements_eq hts, ?_⟩
  · rw [keptRunes_eq hts, hmarks]
  · rw [Strings.containsRune, List.contains_iff_mem, codeText_eq_marked,
      lexes_text (publishForms_proper d) hts, mem_marked_iff, hmarks]
    constructor
    · rintro ⟨i, hi, hk⟩
      have hlt : i < (core q).length := (List.getElem?_eq_some_iff.mp hi).1
      refine ⟨i, hlt, ?_, ?_⟩
      · rw [hv, List.getElem?_append_left hlt]
        exact hi
      · rwa [List.getElem?_take_of_lt hlt] at hk
    · rintro ⟨i, hlt, hi, hk⟩
      refine ⟨i, ?_, ?_⟩
      · rw [hv, List.getElem?_append_left hlt] at hi
        exact hi
      · rwa [List.getElem?_take_of_lt hlt]

/-- In `SELECT ';';;` the semicolon before the trailing ones is quoted. -/
theorem multipleStatements_quoted :
    ∃ ks multiple, keptRunes "SELECT ';';;".toList .postgres = some ks ∧
      keptRunes (core "SELECT ';';;".toList) .postgres =
        some (ks.take (core "SELECT ';';;".toList).length) ∧
      hasMultipleStatements "SELECT ';';;".toList .postgres = some multiple ∧
      (multiple = true ↔ ∃ i < (core "SELECT ';';;".toList).length,
        "SELECT ';';;".toList[i]? = some ';' ∧ ks[i]? = some true) :=
  multipleStatements_iff (q := "SELECT ';';;".toList)
    (show stripDialect "SELECT ';';;".toList .postgres = some "SELECT ;;".toList by decide +kernel)

/-! ## Select into -/

/-- The words `select` and `into`, in any case, with a text between them that the property
holds of. -/
def IntoWith (between : Text → Prop) (s : Text) : Prop :=
  ∃ a select gap into b, s = a ++ (select ++ gap ++ into ++ b) ∧
    select.map Char.toLower = "select".toList ∧ into.map Char.toLower = "into".toList ∧
    a.getLast?.any isWord = false ∧ b.head?.any isWord = false ∧ between gap

/-- White space, any text and white space. -/
def Spaced (gap : Text) : Prop :=
  ∃ x text y, gap = x :: (text ++ [y]) ∧ Strings.isSpace x = true ∧ Strings.isSpace y = true

/-- White space, a text without a line break and white space, in the sense of `\s`. -/
def InLine (gap : Text) : Prop :=
  ∃ xs line ys, gap = xs ++ (line ++ ys) ∧ xs ≠ [] ∧ ys ≠ [] ∧
    (∀ c ∈ xs, Regexp.isSpace c = true) ∧ (∀ c ∈ line, c ≠ '\n') ∧
    ∀ c ∈ ys, Regexp.isSpace c = true

theorem isWord_of_toLower {c : Char} (h : isWord c.toLower = true) : isWord c = true := by
  unfold Char.toLower at h
  split at h
  next hupper =>
    simp only [isWord, Char.le_def, Bool.or_eq_true, Bool.and_eq_true, decide_eq_true_eq]
    exact .inl (.inr hupper)
  next _ => exact h

theorem isWord_of_mem_word {word : String} (hword : word.toList.all isWord = true) {w : Text}
    (h : w.map Char.toLower = word.toList) : ∀ c ∈ w, isWord c = true := by
  intro c hc
  refine isWord_of_toLower (List.all_eq_true.mp hword c.toLower ?_)
  rw [← h]
  exact List.mem_map_of_mem hc

theorem ne_nil_of_map_toLower {word : String} (hword : word.toList ≠ []) {w : Text}
    (h : w.map Char.toLower = word.toList) : w ≠ [] := by
  rintro rfl
  exact hword h.symm

section Clause

variable {between : Text → Prop} {select into : Text}

theorem clause_ends (gap : Text) (hselect : select.map Char.toLower = "select".toList)
    (hinto : into.map Char.toLower = "into".toList) :
    (∀ c ∈ (select ++ gap ++ into).head?, isWord c = true) ∧
      ∀ c ∈ (select ++ gap ++ into).getLast?, isWord c = true := by
  constructor
  · intro c hc
    rw [List.append_assoc, List.head?_append_of_ne_nil _
      (ne_nil_of_map_toLower (by decide) hselect)] at hc
    exact isWord_of_mem_word (by decide) hselect c (List.mem_of_mem_head? hc)
  · intro c hc
    rw [List.getLast?_append_of_ne_nil _ (ne_nil_of_map_toLower (by decide) hinto)] at hc
    exact isWord_of_mem_word (by decide) hinto c (List.mem_of_getLast? hc)

theorem clause_ne_nil (gap : Text) (hselect : select.map Char.toLower = "select".toList) :
    select ++ gap ++ into ≠ [] := by
  have hne := ne_nil_of_map_toLower (by decide) hselect
  simp [hne]

/-- White space around a text is not part of the clause. -/
theorem IntoWith.inside {a x b : Text} (h : IntoWith between (a ++ (x ++ b)))
    (ha : ∀ c ∈ a, isWord c = false) (hb : ∀ c ∈ b, isWord c = false) : IntoWith between x := by
  obtain ⟨u, select, gap, into, v, heq, hselect, hinto, hu, hv, hgap⟩ := h
  obtain ⟨hfirst, hlast⟩ := clause_ends gap hselect hinto
  obtain ⟨u', v', hx, rfl, rfl⟩ := span_inside heq.symm (clause_ne_nil gap hselect)
    (fun c hc hmem => absurd (hfirst c hc) (by simp [ha c hmem]))
    (fun c hc hmem => absurd (hlast c hc) (by simp [hb c hmem]))
  exact ⟨u', select, gap, into, v', hx, hselect, hinto, any_getLast?_of_append hu,
    any_head?_of_append hv, hgap⟩

theorem accepts_spaces {xs : Text} (hne : xs ≠ []) (hxs : ∀ c ∈ xs, Regexp.isSpace c = true)
    (before : Option Char) (rest : Text) :
    (Rx.seq (.rune Regexp.isSpace) (.many Regexp.isSpace)).Accepts before xs rest := by
  obtain ⟨c, xs', rfl⟩ := List.exists_cons_of_ne_nil hne
  exact ⟨[c], xs', rfl, ⟨c, rfl, hxs c List.mem_cons_self⟩,
    fun x hx => hxs x (List.mem_cons_of_mem c hx)⟩

/-- The expression matches a clause on one line. -/
theorem accepts_inLine {gap : Text} (hselect : select.map Char.toLower = "select".toList)
    (hinto : into.map Char.toLower = "into".toList) (hgap : InLine gap) (before : Option Char)
    (rest : Text) : selectInto.Accepts before (select ++ gap ++ into) rest := by
  obtain ⟨xs, line, ys, rfl, hxs, hys, hspace, hline, hspace'⟩ := hgap
  refine ⟨select, xs ++ (line ++ ys) ++ into, by simp, ?_, xs, line ++ ys ++ into, by simp,
    accepts_spaces hxs hspace _ _, line, ys ++ into, by simp, ?_, ys, into, rfl,
    accepts_spaces hys hspace' _ _, ?_⟩
  · exact Rx.accepts_word_iff.mpr (List.forall₂_map_left_iff.mpr (folds_of_toLower hselect))
  · intro c hc
    simpa using hline c hc
  · exact Rx.accepts_word_iff.mpr (List.forall₂_map_left_iff.mpr (folds_of_toLower hinto))

theorem writeIn_of_inLine {s : Text} (h : IntoWith InLine s) : WriteIn s := by
  obtain ⟨a, select, gap, into, b, rfl, hselect, hinto, ha, hb, hgap⟩ := h
  obtain ⟨hfirst, hlast⟩ := clause_ends gap hselect hinto
  exact ⟨a, select ++ gap ++ into, b, rfl, .inr (accepts_inLine hselect hinto hgap _ _),
    boundaries (clause_ne_nil gap hselect) hfirst hlast ha hb⟩

end Clause

/-- The validators' trimmed template has the clause too. -/
theorem IntoWith.trimmed {between : Text → Prop} {q st : Text} {d : Dialect}
    (h : IntoWith between st) (hst : stripDialect q d = some st) :
    ∃ ts, Lexes (lexeme (publishForms d) false) (Strings.trimSpace q) ts ∧
      IntoWith between (codeText ts) := by
  obtain ⟨us, ts, -, a, b, hus, hts, -, ha, hb, hcode⟩ := checks_return hst
  obtain ⟨us', hus', rfl⟩ := strip_eq_some_iff.mp hst
  obtain rfl := hus.unique (lexeme_consuming (publishForms_proper d) false) hus'
  rw [hcode] at h
  refine ⟨ts, hts, h.inside (fun c hc => ?_) (fun c hc => ?_)⟩
  · exact isWord_of_isSpace (ha c hc)
  · exact isWord_of_isSpace (hb c hc)

theorem IntoWith.trimSpace_ne_nil {between : Text → Prop} {q st : Text} {d : Dialect}
    (h : IntoWith between st) (hst : stripDialect q d = some st) : Strings.trimSpace q ≠ [] := by
  intro hnil
  obtain ⟨ts, hts, u, select, gap, into, v, heq, hselect, -⟩ := h.trimmed hst
  rw [hnil] at hts
  cases hts with
  | read hl _ => cases hl
  | done =>
      have hclause := (List.append_eq_nil_iff.mp (List.append_eq_nil_iff.mp heq.symm).2).1
      exact clause_ne_nil gap hselect hclause

/-- A template with a `select .. into` clause in its code text is always rejected if the clause
is on one line, and exactly if a side-effecting statement or a separator shows. -/
theorem selectInto_rejected {d : Dialect} {q st : Text} (hst : stripDialect q d = some st)
    (hinto : IntoWith Spaced st) :
    (IntoWith InLine st → AlwaysRejected d q) ∧ (AlwaysRejected d q ↔ VisibleWrite d q) := by
  have hiff := alwaysRejected_iff hst (hinto.trimSpace_ne_nil hst)
  refine ⟨fun hline => hiff.mpr (.inl ?_), hiff⟩
  obtain ⟨ts, hts, hwhole⟩ := hline.trimmed hst
  exact ⟨ts, hts, writeIn_of_inLine hwhole⟩

/-- The clause on one line. -/
theorem selectInto_rejected_one_line :
    stripDialect "SELECT a INTO t".toList .postgres = some "SELECT a INTO t".toList ∧
      AlwaysRejected .postgres "SELECT a INTO t".toList := by
  have hst : stripDialect "SELECT a INTO t".toList .postgres = some "SELECT a INTO t".toList := by
    decide +kernel
  have hwith : ∀ between : Text → Prop, between " a ".toList →
      IntoWith between "SELECT a INTO t".toList :=
    fun _ h => ⟨[], "SELECT".toList, " a ".toList, "INTO".toList, " t".toList, rfl, by decide,
      by decide, rfl, rfl, h⟩
  refine ⟨hst, (selectInto_rejected hst (hwith Spaced ?_)).1 (hwith InLine ?_)⟩
  · exact ⟨' ', ['a'], ' ', rfl, rfl, rfl⟩
  · refine ⟨[' '], ['a'], [' '], rfl, List.cons_ne_nil _ _, List.cons_ne_nil _ _, ?_, ?_, ?_⟩
    · exact List.all_eq_true.mp rfl
    · simp
    · exact List.all_eq_true.mp rfl

/-- A line break in the list of columns hides the clause. -/
theorem selectInto_over_lines_accepted :
    let api : APIDefinition :=
      { connectorType := "postgres".toList, method := "GET".toList, defaultLimit := 1
        queryTemplate := "SELECT a,\nb INTO t FROM x".toList }
    ReadOnly api ∧ queryBuilderFromAPI api = .ok none ∧
      stripDialect api.queryTemplate .postgres = some api.queryTemplate ∧
      IntoWith Spaced api.queryTemplate ∧
      (validateForPublish (fun _ => none) id api []).run = some (.ok ()) ∧
      (validateForExecution api).run = some (.ok ()) := by
  refine ⟨.inr rfl, rfl, by decide +kernel, ?_, by decide +kernel, by decide +kernel⟩
  refine ⟨[], "SELECT".toList, " a,\nb ".toList, "INTO".toList, " t FROM x".toList, rfl, by decide,
    by decide, rfl, rfl, ' ', "a,\nb".toList, ' ', rfl, rfl, rfl⟩

end DDAG.Gateway
