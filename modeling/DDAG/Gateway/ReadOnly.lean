import DDAG.Gateway.Validate
import DDAG.Connectors.Trimming

/-!
# Read-only APIs and side-effecting statements

The validators look for the keywords of `writeStmt` in the text that
`StripDialect` leaves.  What a database runs is decided by its own reading of
the template, `nativeForms`: the quoted regions and comments every dialect has
and those of the dialect itself.

The two readings differ in two ways.  `StripDialect` drops dollar quotes in
every dialect, and it deletes a region without leaving anything in its place, so
the words on both sides of a comment become one word.  `rejects_iff` says
exactly when a keyword in the code of a template is seen, and
`PlainlyRead.visibleWrite` that it is seen in templates read alike by both,
without a region between two word runes.
-/

namespace DDAG.Gateway

open Models Machine Regexp
open Connectors

/-! ## The code of a template -/

/-- The end of a dollar quote of PostgreSQL: its tag is empty or an identifier. -/
def pgDollarEnd : Text → Option Text
  | '$' :: rest =>
      let tag := rest.takeWhile isIdentPart
      if tag.head?.all isIdentStart ∧ (rest.drop tag.length).head? = some '$' then
        findTag ('$' :: tag ++ ['$']) (rest.drop (tag.length + 1))
      else none
  | _ => none

/-- An opening that is not closed opens nothing. -/
def Opening.ofClosed : Option Text → Opening
  | some after => .region after
  | none => .no

/-- The forms a dialect has. -/
def nativeForms : Dialect → Forms
  | .postgres => fun s => Opening.ofClosed (pgDollarEnd s)
  | .mysql => fun s =>
      if s.head? = some '`' then .region (skipDelimited '`' s)
      else if s.head? = some '#' then .region (skipLine s)
      else .no
  | .sqlserver => fun s =>
      if s.head? = some '[' then .region (skipBracketIdentifier s) else .no
  | .oracle => fun s =>
      if s.head? = some 'Q' then Opening.ofClosed (oracleQuoteEnd ('q' :: s.tail))
      else Opening.ofClosed (oracleQuoteEnd s)
  | .other => plainForms

def isWordRune (t : Lexeme) : Bool := t.rune?.any isWord

/-- A word of the code of `q`: a run of word runes at adjacent code positions
that is not part of a longer one. -/
def CodeWord (d : Dialect) (q w : Text) : Prop :=
  ∃ front back, Lexes (lexeme (nativeForms d) false) q (front ++ (w.map .rune ++ back)) ∧
    w ≠ [] ∧ (∀ c ∈ w, isWord c = true) ∧
    front.getLast?.any isWordRune = false ∧ back.head?.any isWordRune = false

/-- A keyword of `writeStmt`, in any case. -/
def IsWriteKeyword (w : Text) : Prop := ∃ kw ∈ writeKeywords, w.map Char.toLower = kw.toList

/-- The code of `q` has a keyword of `writeStmt` as a word. -/
def HasWriteKeyword (d : Dialect) (q : Text) : Prop := ∃ w, IsWriteKeyword w ∧ CodeWord d q w

/-! ## What the validators promise -/

/-- A check that returns an error. -/
def Rejected {α : Type} (r : Check α) : Prop := ∃ e, r.run = some (.error e)

/-- APIs that must not write. -/
def ReadOnly (api : APIDefinition) : Prop := api.operationType = .read ∨ api.isWrite = false

/-- Every read-only API without a query builder that has the template `q`, with
a keyword in its code, is rejected by both validators. -/
def Rejects (d : Dialect) (q : Text) : Prop :=
  ∀ (api : APIDefinition) (params : List APIParameter) (compileError : Text → Option Text)
    (walk : List Text → List Text),
    ReadOnly api → (∀ c, queryBuilderFromAPI api ≠ .ok (some c)) → api.dialect = d →
    api.queryTemplate = q → HasWriteKeyword d q →
    Rejected (validateForPublish compileError walk api params) ∧ Rejected (validateForExecution api)

/-- Every read-only API without a query builder that has the template `q` is rejected by both
validators. -/
def AlwaysRejected (d : Dialect) (q : Text) : Prop :=
  ∀ (api : APIDefinition) (params : List APIParameter) (compileError : Text → Option Text)
    (walk : List Text → List Text),
    ReadOnly api → (∀ c, queryBuilderFromAPI api ≠ .ok (some c)) → api.dialect = d →
    api.queryTemplate = q →
    Rejected (validateForPublish compileError walk api params) ∧ Rejected (validateForExecution api)

/-- A side-effecting statement stands in a text: a keyword or `select .. into`,
between word boundaries. -/
def WriteIn (s : Text) : Prop :=
  ∃ a w b, s = a ++ (w ++ b) ∧
    ((∃ kw ∈ writeKeywords, List.Forall₂ (fun p c => foldsTo p c = true) kw.toList w) ∨
      selectInto.Accepts a.getLast? w b) ∧
    atBoundary a.getLast? (w ++ b).head? = true ∧ atBoundary (lastOr a.getLast? w) b.head? = true

/-- A statement separator stands in the template outside the regions that are
deleted, not counting those at its end. -/
def Separated (d : Dialect) (q : Text) : Prop :=
  ∃ ts, Lexes (lexeme (publishForms d) false) (Strings.trimRight (· == ';') (Strings.trimSpace q)) ts ∧
    ';' ∈ codeText ts

/-- With the regions of the publish-side reading deleted, a side-effecting
statement or a separator still stands in the template. -/
def VisibleWrite (d : Dialect) (q : Text) : Prop :=
  (∃ ts, Lexes (lexeme (publishForms d) false) (Strings.trimSpace q) ts ∧ WriteIn (codeText ts)) ∨
    Separated d q

/-! ## The checks of the template -/

theorem matchString_writeStmt_iff (s : Text) : matchString writeStmt s = true ↔ WriteIn s := by
  rw [matchString_iff]
  refine exists_congr fun a => exists_congr fun w => exists_congr fun b => and_congr_right fun _ => ?_
  simp only [writeStmt, Rx.Accepts, Rx.accepts_oneOf_iff, List.mem_append, List.mem_map,
    List.mem_singleton]
  constructor
  · rintro ⟨u, _, rfl, ⟨rfl, hfirst⟩, v, x, rfl, ⟨r, hr, hacc⟩, rfl, hlast⟩
    simp only [lastOr_nil, List.nil_append, List.append_nil] at *
    refine ⟨?_, hfirst, hlast⟩
    rcases hr with ⟨kw, hkw, rfl⟩ | rfl
    · refine .inl ⟨kw, hkw, ?_⟩
      simpa [wordRx, Rx.accepts_word_iff] using hacc
    · exact .inr hacc
  · rintro ⟨hw, hfirst, hlast⟩
    refine ⟨[], w, rfl, ⟨rfl, hfirst⟩, w, [], (List.append_nil w).symm, ?_, rfl, hlast⟩
    rcases hw with ⟨kw, hkw, hall⟩ | hinto
    · refine ⟨wordRx kw, .inl ⟨kw, hkw, rfl⟩, ?_⟩
      simpa [wordRx, Rx.accepts_word_iff] using hall
    · exact ⟨selectInto, .inr rfl, hinto⟩

theorem Rejected.bind {α β : Type} {r : Check α} (h : Rejected r) (f : α → Check β) :
    Rejected (r >>= f) := by
  obtain ⟨e, he⟩ := h
  refine ⟨e, ?_⟩
  rw [ExceptT.run_bind, he]
  rfl

theorem rejected_refuseIf (message : Text) : Rejected (refuseIf (some true) message) :=
  ⟨message, rfl⟩

/-- A test that returns either rejects or lets the rest decide. -/
theorem Rejected.refuseIf_bind {b : Bool} {message : Text} {f : Unit → Check Unit}
    (h : Rejected (f ())) : Rejected (refuseIf (some b) message >>= f) := by
  cases b with
  | true => exact (rejected_refuseIf message).bind f
  | false => exact h

theorem andAlso_some (b w : Bool) : andAlso b (some w) = some (b && w) := by
  cases b <;> rfl

section Template

variable {api : APIDefinition} {q : Text} {w m : Bool}

/-- The template is rejected when it writes and the API is read-only, or when it
has several statements. -/
theorem validateTemplate_rejected (hw : writes q api.dialect = some w)
    (hm : hasMultipleStatements q api.dialect = some m)
    (h : w = true ∧ ReadOnly api ∨ m = true) : Rejected (validateTemplate api q) := by
  unfold validateTemplate
  rw [hw, hm, andAlso_some, andAlso_some]
  refine Rejected.refuseIf_bind ?_
  rcases h with ⟨rfl, hread | hwrite⟩ | rfl
  · rw [hread]
    exact (rejected_refuseIf _).bind _
  · rw [hwrite]
    exact Rejected.refuseIf_bind ((rejected_refuseIf _).bind _)
  · exact Rejected.refuseIf_bind (Rejected.refuseIf_bind (rejected_refuseIf _))

theorem validateTemplate_passes (hq : q ≠ []) (hw : writes q api.dialect = some false)
    (hm : hasMultipleStatements q api.dialect = some false) : validateTemplate api q = pure () := by
  unfold validateTemplate
  rw [hw, hm, andAlso_some, andAlso_some, Bool.and_false, Bool.and_false, decide_eq_false hq]
  rfl

/-- A builder-free API is rejected when its template is. -/
theorem validators_rejected (hnb : ∀ c, queryBuilderFromAPI api ≠ .ok (some c))
    (h : Rejected (validateTemplate api (Strings.trimSpace api.queryTemplate)))
    (params : List APIParameter) (compileError : Text → Option Text)
    (walk : List Text → List Text) :
    Rejected (validateForPublish compileError walk api params) ∧
      Rejected (validateForExecution api) := by
  unfold validateForPublish validateForExecution
  cases hb : queryBuilderFromAPI api with
  | error message => exact ⟨⟨message, rfl⟩, ⟨message, rfl⟩⟩
  | ok builder =>
      cases builder with
      | some c => exact absurd hb (hnb c)
      | none => exact ⟨h.bind _, h.bind _⟩

end Template

/-! ## Templates on which the scanners return -/

section Strip

variable {d : Dialect} {q st : Text}

/-- If `StripDialect` returns on a template, so do the tests of the validators
on its trimmed text. -/
theorem checks_return (hst : stripDialect q d = some st) :
    ∃ us ts ts' a b, Lexes (lexeme (publishForms d) false) q us ∧
      Lexes (lexeme (publishForms d) false) (Strings.trimSpace q) ts ∧
      Lexes (lexeme (publishForms d) false)
        (Strings.trimRight (· == ';') (Strings.trimSpace q)) ts' ∧
      (∀ c ∈ a, Strings.isSpace c = true) ∧ (∀ c ∈ b, Strings.isSpace c = true) ∧
      codeText us = a ++ (codeText ts ++ b) := by
  obtain ⟨us, hus, -⟩ := strip_eq_some_iff.mp hst
  obtain ⟨ts, a, b, hts, ha, hb, hcode, -⟩ := lexes_trimSpace hus
  obtain ⟨v, hv, hsemi⟩ := Strings.trimRight_split (· == ';') (Strings.trimSpace q)
  have hinert : Inert v := by
    intro c hc
    rw [beq_iff_eq.mp (hsemi c hc)]
    exact inert_semicolon
  have hts' := hts
  rw [hv] at hts'
  obtain ⟨ts', -, hcore, -⟩ := lexes_append_inert hinert hts'
  exact ⟨us, ts, ts', a, b, hus, hts, hcore, ha, hb, hcode⟩

theorem writes_eq {ts : List Lexeme} (hts : Lexes (lexeme (publishForms d) false) q ts) :
    writes q d = some (matchString writeStmt (codeText ts)) := by
  rw [writes, strip_eq_some_iff.mpr ⟨ts, hts, rfl⟩]
  rfl

theorem hasMultipleStatements_eq {ts : List Lexeme}
    (hts : Lexes (lexeme (publishForms d) false)
      (Strings.trimRight (· == ';') (Strings.trimSpace q)) ts) :
    hasMultipleStatements q d = some (Strings.containsRune (codeText ts) ';') := by
  rw [hasMultipleStatements, strip_eq_some_iff.mpr ⟨ts, hts, rfl⟩]
  rfl

/-- The tests of the validators say whether a side-effecting statement shows. -/
theorem visibleWrite_iff (hst : stripDialect q d = some st) :
    ∃ w m, writes (Strings.trimSpace q) d = some w ∧
      hasMultipleStatements (Strings.trimSpace q) d = some m ∧
      (VisibleWrite d q ↔ w = true ∨ m = true) := by
  have hc := lexeme_consuming (publishForms_proper d) false
  obtain ⟨_, ts, ts', _, _, _, hts, hts', _⟩ := checks_return hst
  have hm : hasMultipleStatements (Strings.trimSpace q) d = _ :=
    hasMultipleStatements_eq (by rw [Strings.trimSpace_trimSpace]; exact hts')
  refine ⟨_, _, writes_eq hts, hm, or_congr ?_ ?_⟩
  · rw [matchString_writeStmt_iff]
    constructor
    · rintro ⟨ts₁, h₁, hw⟩
      rwa [hts.unique hc h₁]
    · exact fun hw => ⟨ts, hts, hw⟩
  · rw [Strings.containsRune, List.contains_iff_mem]
    constructor
    · rintro ⟨ts₁, h₁, hmem⟩
      rwa [hts'.unique hc h₁]
    · exact fun hmem => ⟨ts', hts', hmem⟩

end Strip

/-! ## Keywords in the code of a template -/

theorem pgDollarEnd_suffix {c : Char} {rest after : Text} (h : pgDollarEnd (c :: rest) = some after) :
    after <:+ rest := by
  unfold pgDollarEnd at h
  split at h
  next rest' heq =>
    cases heq
    simp only at h
    split at h
    next _ => exact (findTag_suffix h).trans (List.drop_suffix _ _)
    next _ => cases h
  next _ => cases h

theorem Opening.ofClosed_region {o : Option Text} {after : Text}
    (h : Opening.ofClosed o = .region after) : o = some after := by
  cases o with
  | none => cases h
  | some a =>
      cases h
      rfl

theorem nativeForms_proper (d : Dialect) : Forms.Proper (nativeForms d) := by
  intro c rest after h
  cases d with
  | postgres => exact pgDollarEnd_suffix (Opening.ofClosed_region h)
  | mysql =>
      simp only [nativeForms, List.head?_cons, Option.some.injEq] at h
      split_ifs at h with h1 h2
      · cases h
        exact skipDelimited_suffix _ c rest
      · cases h
        rw [h2, skipLine_cons (by decide)]
        exact skipLine_suffix rest
  | sqlserver =>
      simp only [nativeForms, List.head?_cons, Option.some.injEq] at h
      split_ifs at h
      cases h
      exact skipDelimited_suffix _ c rest
  | oracle =>
      simp only [nativeForms, List.head?_cons, Option.some.injEq, List.tail_cons] at h
      split_ifs at h
      · exact oracleQuoteEnd_suffix (Opening.ofClosed_region h)
      · exact oracleQuoteEnd_suffix (Opening.ofClosed_region h)
  | other => exact plainForms_proper c rest after h

theorem isWord_of_isSpace {c : Char} (h : Strings.isSpace c = true) : isWord c = false :=
  Inert.not_identPart (inert_of_isSpace h)

theorem CodeWord.subset {d : Dialect} {q w : Text} (h : CodeWord d q w) : w ⊆ q := by
  obtain ⟨front, back, hl, -⟩ := h
  intro c hc
  rw [← lexesTo_text (nativeForms_proper d) hl, List.append_nil]
  refine List.mem_flatMap.mpr ⟨.rune c, ?_, List.mem_singleton.mpr rfl⟩
  exact List.mem_append_right _ (List.mem_append_left _ (List.mem_map_of_mem hc))

/-- A template with a word in its code is not all white space. -/
theorem CodeWord.trimSpace_ne_nil {d : Dialect} {q w : Text} (h : CodeWord d q w) :
    Strings.trimSpace q ≠ [] := by
  intro hnil
  obtain ⟨c, hc⟩ := List.exists_mem_of_ne_nil w h.choose_spec.choose_spec.2.1
  have hword : isWord c = true := h.choose_spec.choose_spec.2.2.1 c hc
  obtain ⟨a, b, hq, ha, hb⟩ := Strings.trimSpace_split q
  have hmem := h.subset hc
  rw [hq, hnil, List.nil_append, List.mem_append] at hmem
  have hspace : Strings.isSpace c = true := hmem.elim (ha c) (hb c)
  rw [isWord_of_isSpace hspace] at hword
  cases hword

/-- Every dialect is that of some connector type. -/
def connectorTypeOf : Dialect → Text
  | .postgres => "postgres".toList
  | .mysql => "mysql".toList
  | .sqlserver => "sqlserver".toList
  | .oracle => "oracle".toList
  | .other => []

theorem ofText_connectorTypeOf (d : Dialect) : Dialect.ofText (connectorTypeOf d) = d := by
  cases d <;> decide

/-- Where `StripDialect` returns, a template is always rejected exactly when a side-effecting
statement or a separator shows once the regions are deleted. -/
theorem alwaysRejected_iff {d : Dialect} {q st : Text} (hst : stripDialect q d = some st)
    (hne : Strings.trimSpace q ≠ []) : AlwaysRejected d q ↔ VisibleWrite d q := by
  obtain ⟨w, m, hw, hm, hvis⟩ := visibleWrite_iff hst
  constructor
  · intro hrej
    by_contra hno
    rw [hvis, not_or, Bool.not_eq_true, Bool.not_eq_true] at hno
    obtain ⟨rfl, rfl⟩ := hno
    -- an API with this template and nothing else to object to
    let api : APIDefinition :=
      { connectorType := connectorTypeOf d, queryTemplate := q, defaultLimit := 1 }
    have hd : api.dialect = d := ofText_connectorTypeOf d
    have hpass : validateForExecution api = pure () := by
      have ht : validateTemplate api (Strings.trimSpace q) = pure () :=
        validateTemplate_passes hne (by rw [hd, hw]) (by rw [hd, hm])
      change (validateTemplate api (Strings.trimSpace q) >>= fun _ => validateDefaultLimit api) = _
      rw [ht]
      rfl
    obtain ⟨-, e, he⟩ := hrej api [] (fun _ => none) id (.inr rfl) (fun _ => nofun) hd rfl
    rw [hpass] at he
    cases he
  · rintro hvisible api params compileError walk hro hnb rfl rfl
    refine validators_rejected hnb (validateTemplate_rejected hw hm ?_) params compileError walk
    exact (hvis.mp hvisible).imp_left fun hwt => ⟨hwt, hro⟩

theorem rejects_iff {d : Dialect} {q st : Text} (hst : stripDialect q d = some st) :
    Rejects d q ↔ (HasWriteKeyword d q → VisibleWrite d q) := by
  constructor
  · intro hrej hkey
    obtain ⟨_, _, hword⟩ := id hkey
    refine (alwaysRejected_iff hst hword.trimSpace_ne_nil).mp ?_
    exact fun api params compileError walk hro hnb hd hq =>
      hrej api params compileError walk hro hnb hd hq hkey
  · intro hvisible api params compileError walk hro hnb hd hq hkey
    obtain ⟨_, _, hword⟩ := id hkey
    have halways := (alwaysRejected_iff hst hword.trimSpace_ne_nil).mpr (hvisible hkey)
    exact halways api params compileError walk hro hnb hd hq

/-! ## Templates without splices -/

/-- No deleted run of regions stands between two word runes. -/
def NoSplice (ts : List Lexeme) : Prop :=
  ∀ front c mid c' back, ts = front ++ .rune c :: (mid ++ .rune c' :: back) → mid ≠ [] →
    (∀ t ∈ mid, t.rune? = none) → ¬(isWord c = true ∧ isWord c' = true)

/-- The dialect and the publish side read the template alike, and deleting its
regions joins no two words. -/
def PlainlyRead (d : Dialect) (q : Text) : Prop :=
  ∃ ts, Lexes (lexeme (nativeForms d) false) q ts ∧ Lexes (lexeme (publishForms d) false) q ts ∧
    NoSplice ts

theorem Lexeme.eq_rune {t : Lexeme} {c : Char} (h : t.rune? = some c) : t = .rune c := by
  cases t <;> cases h
  rfl

/-- The last rune of the code, and the regions behind it. -/
theorem codeText_getLast? {ts : List Lexeme} {c : Char} (h : (codeText ts).getLast? = some c) :
    ∃ front mid, ts = front ++ .rune c :: mid ∧ ∀ t ∈ mid, t.rune? = none := by
  induction ts using List.reverseRecOn with
  | nil => cases h
  | append_singleton ts t ih =>
      rw [codeText_append, codeText_cons] at h
      cases ht : t.rune? with
      | none =>
          rw [ht] at h
          obtain ⟨front, mid, rfl, hmid⟩ := ih (by simpa [codeText] using h)
          refine ⟨front, mid ++ [t], by simp, ?_⟩
          simpa [or_imp, forall_and, ht] using hmid
      | some x =>
          rw [ht] at h
          have hx : x = c := by simpa [codeText] using h
          rw [Lexeme.eq_rune ht, hx]
          exact ⟨ts, [], rfl, by simp⟩

theorem codeText_head? {ts : List Lexeme} {c : Char} (h : (codeText ts).head? = some c) :
    ∃ mid back, ts = mid ++ .rune c :: back ∧ ∀ t ∈ mid, t.rune? = none := by
  induction ts with
  | nil => cases h
  | cons t ts ih =>
      rw [codeText_cons] at h
      cases ht : t.rune? with
      | none =>
          rw [ht] at h
          obtain ⟨mid, back, rfl, hmid⟩ := ih h
          refine ⟨t :: mid, back, rfl, ?_⟩
          simpa [ht] using hmid
      | some x =>
          rw [ht] at h
          cases h
          exact ⟨[], ts, by rw [Lexeme.eq_rune ht]; rfl, by simp⟩

section Words

variable {front back : List Lexeme} {w : Text}

/-- Without splices, the rune before a code word in the code text is no word
rune. -/
theorem NoSplice.before (hns : NoSplice (front ++ (w.map .rune ++ back))) (hne : w ≠ [])
    (hw : ∀ c ∈ w, isWord c = true) (hf : front.getLast?.any isWordRune = false) :
    (codeText front).getLast?.any isWord = false := by
  cases hl : (codeText front).getLast? with
  | none => rfl
  | some c =>
      obtain ⟨x, w', rfl⟩ := List.exists_cons_of_ne_nil hne
      obtain ⟨front', mid, rfl, hmid⟩ := codeText_getLast? hl
      by_contra hword
      have hc : isWord c = true := by simpa using hword
      refine hns front' c mid x (w'.map .rune ++ back) (by simp) ?_ hmid ⟨hc, hw x List.mem_cons_self⟩
      rintro rfl
      simp [isWordRune, Lexeme.rune?, hc] at hf

/-- Without splices, the rune after a code word in the code text is no word
rune. -/
theorem NoSplice.after (hns : NoSplice (front ++ (w.map .rune ++ back))) (hne : w ≠ [])
    (hw : ∀ c ∈ w, isWord c = true) (hb : back.head?.any isWordRune = false) :
    (codeText back).head?.any isWord = false := by
  cases hl : (codeText back).head? with
  | none => rfl
  | some c =>
      obtain ⟨w', x, rfl⟩ := List.eq_nil_or_concat w |>.resolve_left hne
      obtain ⟨mid, back', rfl, hmid⟩ := codeText_head? hl
      by_contra hword
      have hc : isWord c = true := by simpa using hword
      refine hns (front ++ w'.map .rune) x mid c back' (by simp) ?_ hmid ⟨hw x (by simp), hc⟩
      rintro rfl
      simp [isWordRune, Lexeme.rune?, hc] at hb

end Words

/-- Runes around a text can be cut off without cutting into a part that neither begins nor
ends with one of them. -/
theorem span_inside {u v w a b x : Text} (h : u ++ (w ++ v) = a ++ (x ++ b)) (hne : w ≠ [])
    (hfirst : ∀ c ∈ w.head?, c ∉ a) (hlast : ∀ c ∈ w.getLast?, c ∉ b) :
    ∃ u' v', x = u' ++ (w ++ v') ∧ u = a ++ u' ∧ v = v' ++ b := by
  -- on the left the part starts no earlier than `x`
  obtain ⟨u', hu, hx⟩ : ∃ u', u = a ++ u' ∧ x ++ b = u' ++ (w ++ v) := by
    rcases List.append_eq_append_iff.mp h with ⟨e, rfl, he⟩ | ⟨e, rfl, he⟩
    · cases e with
      | nil => exact ⟨[], by simp, by simpa using he.symm⟩
      | cons c e =>
          obtain ⟨c', w', rfl⟩ := List.exists_cons_of_ne_nil hne
          have hc : c' = c := (List.cons.inj he).1
          refine absurd ?_ (hfirst c' rfl)
          rw [hc]
          exact List.mem_append_right u List.mem_cons_self
    · exact ⟨e, rfl, he⟩
  rw [← List.append_assoc] at hx
  -- and on the right it ends no later
  rcases List.append_eq_append_iff.mp hx with ⟨f, hf, rfl⟩ | ⟨f, rfl, rfl⟩
  · rcases List.eq_nil_or_concat f with rfl | ⟨f', c, rfl⟩
    · exact ⟨u', [], by rw [List.append_nil] at hf ⊢; exact hf.symm, hu, rfl⟩
    · obtain ⟨w', c', rfl⟩ := List.eq_nil_or_concat w |>.resolve_left hne
      have hcc : c' = c := by
        have hends := congrArg List.getLast? hf
        simpa using hends
      refine absurd ?_ (hlast c' (by simp))
      simp [hcc]
  · exact ⟨u', f, by rw [List.append_assoc], hu, rfl⟩

/-- White space around a text can be cut off without cutting into a word. -/
theorem word_inside {u v w a b x : Text} (h : u ++ (w ++ v) = a ++ (x ++ b)) (hne : w ≠ [])
    (hw : ∀ c ∈ w, isWord c = true) (ha : ∀ c ∈ a, isWord c = false)
    (hb : ∀ c ∈ b, isWord c = false) :
    ∃ u' v', x = u' ++ (w ++ v') ∧ u = a ++ u' ∧ v = v' ++ b := by
  have hclash : ∀ {c : Char} {z : Text}, c ∈ w → (∀ c ∈ z, isWord c = false) → c ∉ z := by
    intro c z hcw hz hcz
    have h1 := hw c hcw
    rw [hz c hcz] at h1
    cases h1
  refine span_inside h hne (fun c hc => ?_) (fun c hc => ?_)
  · exact hclash (List.mem_of_mem_head? hc) ha
  · exact hclash (List.mem_of_getLast? hc) hb

theorem any_getLast?_of_append {p : Char → Bool} {a u : Text} (h : (a ++ u).getLast?.any p = false) :
    u.getLast?.any p = false := by
  rw [List.getLast?_append] at h
  cases hlast : u.getLast? with
  | none => rfl
  | some c => simpa [hlast] using h

theorem any_head?_of_append {p : Char → Bool} {v b : Text} (h : (v ++ b).head?.any p = false) :
    v.head?.any p = false := by
  cases v with
  | nil => rfl
  | cons c v => exact h

/-- A word in any case is matched by its expression. -/
theorem folds_of_toLower {word : String} {w : Text} (h : w.map Char.toLower = word.toList) :
    List.Forall₂ (fun p c => foldsTo p c = true) word.toList w := by
  rw [← h, List.forall₂_map_left_iff, List.forall₂_same]
  intro c _
  simp [foldsTo]

theorem IsWriteKeyword.folds {w : Text} (h : IsWriteKeyword w) :
    ∃ kw ∈ writeKeywords, List.Forall₂ (fun p c => foldsTo p c = true) kw.toList w := by
  obtain ⟨kw, hkw, heq⟩ := h
  exact ⟨kw, hkw, folds_of_toLower heq⟩

/-- A part that begins and ends with word runes stands between boundaries where the runes around
it are no word runes. -/
theorem boundaries {u w v : Text} (hne : w ≠ []) (hfirst : ∀ c ∈ w.head?, isWord c = true)
    (hlast : ∀ c ∈ w.getLast?, isWord c = true) (hu : u.getLast?.any isWord = false)
    (hv : v.head?.any isWord = false) :
    atBoundary u.getLast? (w ++ v).head? = true ∧
      atBoundary (lastOr u.getLast? w) v.head? = true := by
  constructor
  · obtain ⟨c, w', rfl⟩ := List.exists_cons_of_ne_nil hne
    simp [atBoundary, hu, hfirst c rfl]
  · obtain ⟨w', c, rfl⟩ := List.eq_nil_or_concat w |>.resolve_left hne
    simp [atBoundary, lastOr, hv, hlast c (by simp)]

/-- A keyword between runes that are no word runes shows. -/
theorem writeIn_of_keyword {u w v : Text} (hkey : IsWriteKeyword w) (hne : w ≠ [])
    (hw : ∀ c ∈ w, isWord c = true) (hu : u.getLast?.any isWord = false)
    (hv : v.head?.any isWord = false) : WriteIn (u ++ (w ++ v)) := by
  refine ⟨u, w, v, rfl, .inl hkey.folds, boundaries hne ?_ ?_ hu hv⟩
  · exact fun c hc => hw c (List.mem_of_mem_head? hc)
  · exact fun c hc => hw c (List.mem_of_getLast? hc)

/-- In a plainly read template a keyword in the code shows. -/
theorem PlainlyRead.visibleWrite {d : Dialect} {q st : Text} (hst : stripDialect q d = some st)
    (hplain : PlainlyRead d q) (hkey : HasWriteKeyword d q) : VisibleWrite d q := by
  obtain ⟨us, hnative, hpublish, hns⟩ := hplain
  obtain ⟨w, hkw, front, back, hl, hne, hw, hfront, hback⟩ := hkey
  obtain rfl := hnative.unique (lexeme_consuming (nativeForms_proper d) false) hl
  obtain ⟨us', ts, -, a, b, hus', hts, -, ha, hb, hcode⟩ := checks_return hst
  obtain rfl := hpublish.unique (lexeme_consuming (publishForms_proper d) false) hus'
  rw [codeText_append, codeText_append, codeText_runes] at hcode
  obtain ⟨u, v, hx, hu, hv⟩ := word_inside hcode hne hw (fun c hc => isWord_of_isSpace (ha c hc))
    (fun c hc => isWord_of_isSpace (hb c hc))
  have hbefore := hns.before hne hw hfront
  have hafter := hns.after hne hw hback
  refine .inl ⟨ts, hts, ?_⟩
  rw [hx]
  refine writeIn_of_keyword hkw hne hw ?_ ?_
  · rw [hu] at hbefore
    exact any_getLast?_of_append hbefore
  · rw [hv] at hafter
    exact any_head?_of_append hafter

/-- A keyword in the code of a template on which `StripDialect` returns is always
rejected if the template is plainly read, and exactly if a side-effecting
statement or a separator shows once the regions are deleted. -/
theorem readOnly_rejects {d : Dialect} {q st : Text} (hst : stripDialect q d = some st) :
    (PlainlyRead d q → Rejects d q) ∧
      (Rejects d q ↔ (HasWriteKeyword d q → VisibleWrite d q)) :=
  ⟨fun hplain => (rejects_iff hst).mpr (hplain.visibleWrite hst), rejects_iff hst⟩

theorem readOnly_rejects_delete :
    stripDialect "DELETE FROM t -- all".toList .postgres = some "DELETE FROM t ".toList ∧
      Rejects .postgres "DELETE FROM t -- all".toList := by
  have hst : stripDialect "DELETE FROM t -- all".toList .postgres = some "DELETE FROM t ".toList := by
    decide +kernel
  refine ⟨hst, (readOnly_rejects hst).2.mpr fun _ => .inl ?_⟩
  refine ⟨"DELETE FROM t ".toList.map .rune ++ [.region "-- all".toList], ?_, ?_⟩
  · exact (lexAll_eq_some_iff (lexeme_consuming (publishForms_proper _) false)).mp (by decide +kernel)
  · exact (matchString_writeStmt_iff _).mp (by decide +kernel)

/-- A comment in front of a keyword hides it: the validators see the one word
`ANALYZEDELETE`. -/
theorem spliced_keyword_accepted :
    let api : APIDefinition :=
      { connectorType := "postgres".toList, defaultLimit := 1
        queryTemplate := "EXPLAIN ANALYZE/**/DELETE FROM t".toList }
    ReadOnly api ∧ queryBuilderFromAPI api = .ok none ∧ HasWriteKeyword .postgres api.queryTemplate ∧
      stripDialect api.queryTemplate .postgres = some "EXPLAIN ANALYZEDELETE FROM t".toList ∧
      (validateForPublish (fun _ => none) id api []).run = some (.ok ()) ∧
      (validateForExecution api).run = some (.ok ()) := by
  have hlex : lexAll (lexeme (nativeForms .postgres) false)
      "EXPLAIN ANALYZE/**/DELETE FROM t".toList =
        some (("EXPLAIN ANALYZE".toList.map .rune ++ [.region "/**/".toList]) ++
          ("DELETE".toList.map .rune ++ " FROM t".toList.map .rune)) := by decide +kernel
  have hlexes := (lexAll_eq_some_iff
    (lexeme_consuming (nativeForms_proper .postgres) false)).mp hlex
  refine ⟨.inr rfl, rfl, ?_, by decide +kernel, by decide +kernel, by decide +kernel⟩
  exact ⟨"DELETE".toList, ⟨"delete", by simp [writeKeywords], by decide⟩, _, _, hlexes,
    by decide, List.all_eq_true.mp (by decide), by decide, by decide⟩

end DDAG.Gateway
