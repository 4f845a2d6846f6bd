import DDAG.Connectors.Closing
import DDAG.Gateway.Placeholders
import Mathlib.Data.List.Chain

/-!
# Clean templates

`Counts` can fail because of the template: it may hold a placeholder of its own, a form of the
dialect that `Bind` does not read, an identifier that runs into a placeholder, or an end that takes
the clause in.  A template is *clean* in a dialect if it has none of these (`Clean`), which is said
of the lexemes that `Bind` reads and not of the bound text.

* The database reads the bound text as `Bind` reads the template (`lexesTo_bound`).
* The native placeholders of what it reads are those of the parameters (`filter_words_bound`).
* What the paginator cuts off the bound text is what it would cut off the template
  (`framed_bound`).

`Clean.clear` puts them together.
-/

namespace DDAG.Gateway

open Models Machine
open Connectors

/-! ## What the binder writes -/

/-- The lexemes of a bound text, as a database reads them. -/
def boundLexemes (ph : Placeholder) : Nat → List Lexeme → List Lexeme
  | _, [] => []
  | n, .param _ :: us => (ph (n + 1)).map .rune ++ boundLexemes ph (n + 1) us
  | n, .cast :: us => .rune ':' :: .rune ':' :: boundLexemes ph n us
  | n, t :: us => t :: boundLexemes ph n us

theorem boundLexemes_region (ph : Placeholder) (n : Nat) (text : Text) (us : List Lexeme) :
    boundLexemes ph n (.region text :: us) = .region text :: boundLexemes ph n us := rfl

theorem boundLexemes_rune (ph : Placeholder) (n : Nat) (c : Char) (us : List Lexeme) :
    boundLexemes ph n (.rune c :: us) = .rune c :: boundLexemes ph n us := rfl

section Bound

variable {d : Dialect}

theorem sqlText_append_runes (ph : Placeholder) (n : Nat) (us : List Lexeme) (w : Text) :
    sqlText ph n (us ++ w.map .rune) = sqlText ph n us ++ w := by
  induction us generalizing n with
  | nil =>
      induction w with
      | nil => rfl
      | cons c w ih => exact congrArg (c :: ·) ih
  | cons t us ih =>
      cases t using Lexeme.cases_name with
      | copied t ht =>
          rw [List.cons_append, sqlText_cons_none ph n ht, sqlText_cons_none ph n ht, ih,
            List.append_assoc]
      | param name =>
          rw [List.cons_append, sqlText, sqlText, ih, List.append_assoc]

theorem sqlText_runes_append (ph : Placeholder) (n : Nat) (w : Text) (us : List Lexeme) :
    sqlText ph n (w.map .rune ++ us) = w ++ sqlText ph n us := by
  induction w with
  | nil => rfl
  | cons c w ih => exact congrArg (c :: ·) ih

theorem head?_placeholder (n : Nat) : (placeholderForDialect d n).head? = some (sigil d) := by
  cases d <;> rfl

/-- A bound text starts as the template, or with a sigil for a colon. -/
theorem head?_sqlText (n : Nat) (us : List Lexeme) :
    (sqlText (placeholderForDialect d) n us).head? = (textOf us).head? ∨
      (textOf us).head? = some ':' ∧
        (sqlText (placeholderForDialect d) n us).head? = some (sigil d) := by
  induction us generalizing n with
  | nil => exact .inl rfl
  | cons t us ih =>
      rw [textOf, List.flatMap_cons]
      cases t using Lexeme.cases_name with
      | copied t ht =>
          rw [sqlText_cons_none _ n ht, List.head?_append, List.head?_append]
          cases t.text.head? with
          | none => exact ih n
          | some c => exact .inl rfl
      | param name =>
          refine .inr ⟨rfl, ?_⟩
          rw [sqlText, List.head?_append, head?_placeholder]
          rfl

end Bound

/-! ## Clean templates -/

/-- The runes that the binder copies as code and a database of the dialect may read otherwise. -/
def reserved (d : Dialect) : List Char := sigil d :: formRunes d

def unreserved (d : Dialect) : Lexeme → Bool
  | .rune c => !(reserved d).contains c
  | .cast => !(reserved d).contains ':'
  | .region _ | .param _ => true

/-- The lexeme may run into the word beside it. -/
def joins (d : Dialect) : Lexeme → Bool
  | .rune c => extendsWord d [] c
  | .param _ => true
  | .region _ | .cast => false

/-- Two lexemes that may stand side by side: nothing runs into a parameter, and no literal follows
a letter that would make an Oracle quote of it. -/
structure Beside (d : Dialect) (x y : Lexeme) : Prop where
  param : x.name? ≠ none ∨ y.name? ≠ none → ¬(joins d x = true ∧ joins d y = true)
  quote : d = .oracle → x = .rune 'q' ∨ x = .rune 'Q' → y.text.head? ≠ some '\''

instance (d : Dialect) (x y : Lexeme) : Decidable (Beside d x y) :=
  decidable_of_iff ((x.name? ≠ none ∨ y.name? ≠ none → ¬(joins d x = true ∧ joins d y = true)) ∧
      (d = .oracle → x = .rune 'q' ∨ x = .rune 'Q' → y.text.head? ≠ some '\''))
    ⟨fun h => ⟨h.1, h.2⟩, fun h => ⟨h.param, h.quote⟩⟩

/-- `Bind` reads a blank behind the template, and the template has no rune of its own that the
database would read otherwise, neither alone nor beside another. -/
structure Clean (d : Dialect) (q : Text) : Prop where
  ends : bindLexemes (paginationBase q ++ [' ']) = bindLexemes (paginationBase q) ++ [.rune ' ']
  code : (bindLexemes q).all (unreserved d) = true
  apart : (bindLexemes q).IsChain (Beside d)

instance (d : Dialect) (q : Text) : Decidable (Clean d q) :=
  decidable_of_iff
    (bindLexemes (paginationBase q ++ [' ']) = bindLexemes (paginationBase q) ++ [.rune ' '] ∧
      (bindLexemes q).all (unreserved d) = true ∧ (bindLexemes q).IsChain (Beside d))
    ⟨fun h => ⟨h.1, h.2.1, h.2.2⟩, fun h => ⟨h.ends, h.code, h.apart⟩⟩

/-! ## The bound template as the database reads it -/

section Reading

variable {d : Dialect}

theorem codeForms_unreserved {c : Char} {rest : Text} (hc : (reserved d).contains c = false)
    (hquote : d = .oracle → c = 'q' ∨ c = 'Q' → rest.head? ≠ some '\'') :
    codeForms d (c :: rest) = .no := by
  rw [reserved, List.contains_cons, Bool.or_eq_false_iff] at hc
  exact codeForms_no hc.2 hquote

/-- A region of `Bind` is one of the database. -/
theorem codeLexeme_of_region {s t t' text : Text}
    (h : lexeme plainForms true s = some (.region text, t)) (hne : t ≠ []) (ht : StandsFor t t') :
    codeLexeme d (text ++ t') = some (.region text, t') := by
  obtain ⟨c, u, htext, rfl⟩ := exists_text_cons plainForms_proper h
  have hopeners : ['"', '\'', '-', '/'].all
      (fun y => !(reserved d).contains y && y != 'q' && y != 'Q') = true := by cases d <;> rfl
  have hopener := List.all_eq_true.mp hopeners c (opener_of_region h)
  simp only [Bool.and_eq_true, Bool.not_eq_true', bne_iff_ne] at hopener
  have hforms : codeForms d (c :: (u ++ t')) = .no :=
    codeForms_unreserved hopener.1.1 fun _ hc => hc.elim (absurd · hopener.1.2) (absurd · hopener.2)
  rw [show text = c :: u from htext, List.cons_append, codeLexeme, lexeme, hforms, ← htext]
  exact commonLexeme_change_region h hne ht

/-- A rune that `Bind` copies is code, if the dialect has no use for it. -/
theorem codeLexeme_of_rune {s t t' : Text} {c : Char} (h : lexeme plainForms true s = some (.rune c, t))
    (hfree : (reserved d).contains c = false)
    (hquote : d = .oracle → c = 'q' ∨ c = 'Q' → t.head? ≠ some '\'') (ht : StandsFor t t') :
    codeLexeme d (c :: t') = some (.rune c, t') := by
  obtain ⟨c, u, htext, rfl⟩ := exists_text_cons plainForms_proper h
  cases htext
  have hforms : codeForms d (c :: t') = .no :=
    codeForms_unreserved hfree fun hd hc => ht.head?_ne rfl (hquote hd hc)
  rw [codeLexeme, lexeme, hforms]
  exact commonLexeme_change_rune (u := []) h ht (by simp)

theorem standsFor_bound (n : Nat) (us : List Lexeme) {w : Text} (hw : Inert w) :
    StandsFor (textOf us ++ [' ']) (sqlText (placeholderForDialect d) n us ++ w) := by
  have hsigil : continuers.all (fun y => sigil d != y) = true := by cases d <;> rfl
  rw [StandsFor, List.head?_append, List.head?_append]
  rcases head?_sqlText (d := d) n us with heq | ⟨hcolon, hhead⟩
  · rw [heq]
    cases (textOf us).head? with
    | none => exact .inr ⟨by decide, hw.continues_nothing⟩
    | some c => exact .inl rfl
  · rw [hcolon, hhead]
    refine .inr ⟨by decide, fun y hy heq => ?_⟩
    exact bne_iff_ne.mp (List.all_eq_true.mp hsigil y hy) (Option.some.inj heq)

/-- What `Bind` reads before a blank, the database reads in the bound text. -/
theorem lexesTo_bound {s : Text} {us : List Lexeme} (h : LexesTo (lexeme plainForms true) s us [' '])
    (hcode : us.all (unreserved d) = true) (hapart : us.IsChain (Beside d)) {w : Text} (hw : Inert w)
    (n : Nat) :
    LexesTo (codeLexeme d) (sqlText (placeholderForDialect d) n us ++ w)
      (boundLexemes (placeholderForDialect d) n us) w := by
  generalize hr : [' '] = r at h
  induction h generalizing n with
  | done => exact .done
  | @read s s' r x us hl hrest ih =>
      subst hr
      obtain ⟨hx, hus⟩ := Bool.and_eq_true_iff.mp (List.all_cons ▸ hcode)
      have htext : textOf us ++ [' '] = s' := lexesTo_text plainForms_proper hrest
      have hne : s' ≠ [] := by
        rw [← htext]
        exact List.append_ne_nil_of_right_ne_nil _ (List.cons_ne_nil _ _)
      have hstands : StandsFor s' (sqlText (placeholderForDialect d) n us ++ w) := by
        rw [← htext]
        exact standsFor_bound n us hw
      replace ih := fun n => ih hus hapart.of_cons n rfl
      cases x with
      | param name =>
          rw [sqlText, List.append_assoc]
          exact (lexesTo_placeholder (n + 1) _).trans (ih (n + 1))
      | cast =>
          have hcolon : isCodeRune d ':' = true := by cases d <;> rfl
          exact .read (codeLexeme_rune hcolon _) (.read (codeLexeme_rune hcolon _) (ih n))
      | region text =>
          rw [sqlText_cons_none _ n rfl, List.append_assoc]
          exact .read (codeLexeme_of_region hl hne hstands) (ih n)
      | rune c =>
          have hquote : d = .oracle → c = 'q' ∨ c = 'Q' → s'.head? ≠ some '\'' := by
            intro hd hc
            cases hrest with
            | done => decide
            | read hl' _ =>
                obtain ⟨y, u, hy, rfl⟩ := exists_text_cons plainForms_proper hl'
                have hbeside := (List.isChain_cons_cons.mp hapart).1.quote hd
                  (hc.imp (congrArg Lexeme.rune) (congrArg Lexeme.rune))
                rwa [hy] at hbeside
          exact .read (codeLexeme_of_rune hl ((Bool.not_eq_true' _).mp hx) hquote hstands) (ih n)

end Reading

/-! ## The words of the bound template -/

section Words

variable {d : Dialect}

theorem extendsWord_nil {w : Text} {c : Char} (h : extendsWord d w c = true) :
    extendsWord d [] c = true := by
  cases d with
  | postgres =>
      rw [extendsWord] at h
      split at h
      next _ => simp [extendsWord, isIdentPart_of_isDigit h]
      next _ => exact h
  | sqlserver => exact h
  | oracle => exact h
  | mysql => cases h
  | other => cases h

theorem extendsWord_nil_of_startsWord {c : Char} (h : startsWord d c = true) (hc : c ≠ sigil d) :
    extendsWord d [] c = true := by
  cases d with
  | postgres =>
      have hor : isIdentStart c = true ∨ isWide c = true := by
        simpa [startsWord, show c ≠ '$' from hc] using h
      rcases hor with hstart | hwide
      · simp [extendsWord, isIdentPart_of_isIdentStart hstart]
      · simp [extendsWord, hwide]
  | sqlserver =>
      have hor : (c = '#' ∨ isIdentStart c = true) ∨ isWide c = true := by
        simpa [startsWord, show c ≠ '@' from hc] using h
      rcases hor with (rfl | hstart) | hwide
      · rfl
      · simp [extendsWord, isIdentPart_of_isIdentStart hstart]
      · simp [extendsWord, hwide]
  | oracle => exact absurd (of_decide_eq_true h) hc
  | mysql => exact absurd (of_decide_eq_true h) hc
  | other => exact absurd (of_decide_eq_true h) hc

/-- A word that has begun is no placeholder, and no parameter follows it. -/
def Begun (d : Dialect) (word : Option (Text × Text)) (us : List Lexeme) : Prop :=
  ∀ p ∈ word, (∃ c w, p.2 = c :: w ∧ c ≠ sigil d) ∧ ∀ x ∈ us.head?, x.name? = none

theorem begun_none (us : List Lexeme) : Begun d none us :=
  fun p hp => absurd hp (Option.not_mem_none p)

theorem Begun.filter {word : Option (Text × Text)} {us : List Lexeme} (h : Begun d word us) :
    word.toList.filter (fun p => isNative d p.2) = [] := by
  rw [List.filter_eq_nil_iff]
  intro p hp hnative
  obtain ⟨⟨c, w, hw, hc⟩, -⟩ := h p (Option.mem_toList.mp hp)
  have hhead := head?_of_isNative hnative
  rw [hw] at hhead
  exact hc (Option.some.inj hhead)

theorem Begun.rune {word : Option (Text × Text)} {us : List Lexeme} {c : Char} (hc : c ≠ sigil d)
    (h : Begun d word (.rune c :: us)) (hbeside : ∀ x ∈ us.head?, Beside d (.rune c) x) (done : Text)
    (ts : List Lexeme) :
    ∃ front word', words d done word (.rune c :: ts) = front ++ words d (done ++ [c]) word' ts ∧
      front.filter (fun p => isNative d p.2) = [] ∧ Begun d word' us := by
  have hnext : extendsWord d [] c = true → ∀ x ∈ us.head?, x.name? = none := by
    intro hjoins x hx
    by_contra hparam
    refine (hbeside x hx).param (.inr hparam) ⟨hjoins, ?_⟩
    cases x <;> first | rfl | exact absurd rfl hparam
  rw [words]
  split
  next hextends =>
    refine ⟨[], _, (List.nil_append _).symm, rfl, ?_⟩
    intro p hp
    obtain ⟨⟨b, w⟩, hmem, rfl⟩ := Option.map_eq_some_iff.mp hp
    obtain ⟨⟨y, v, hv, hy⟩, -⟩ := h _ hmem
    obtain rfl : word = some (b, w) := hmem
    refine ⟨⟨y, v ++ [c], ?_, hy⟩, hnext (extendsWord_nil hextends)⟩
    exact congrArg (· ++ [c]) hv
  next _ =>
    refine ⟨word.toList, _, rfl, h.filter, ?_⟩
    split
    next hstarts =>
      intro p hp
      cases hp
      exact ⟨⟨c, [], rfl, hc⟩, hnext (extendsWord_nil_of_startsWord hstarts hc)⟩
    next _ => exact begun_none us

theorem extendsWord_colon (w : Text) : extendsWord d w ':' = false := by
  cases d <;> simp [extendsWord, isIdentPart, isIdentStart, isWide]

theorem words_colon (hd : d ≠ .oracle) (done : Text) (word : Option (Text × Text)) (ts : List Lexeme) :
    words d done word (.rune ':' :: ts) = word.toList ++ words d (done ++ [':']) none ts := by
  have hstarts : startsWord d ':' = false := by
    cases d with
    | oracle => exact absurd rfl hd
    | _ => rfl
  rw [words_start done (by cases word <;> simp [extendsWord_colon]), hstarts]
  rfl

/-- Nothing goes on with the placeholder of a parameter. -/
theorem extendsWord_behind_param {name : Text} {us : List Lexeme}
    (hbeside : ∀ y ∈ us.head?, Beside d (.param name) y) {n : Nat} {w : Text} {c : Char}
    {back : List Lexeme} (h : boundLexemes (placeholderForDialect d) n us = .rune c :: back) :
    extendsWord d w c = false := by
  cases us with
  | nil => cases h
  | cons y us =>
      have hjoins : joins d y = false := by
        have hnot := (hbeside y rfl).param (.inl (by simp [Lexeme.name?]))
        simpa [joins] using hnot
      cases y with
      | region text => cases h
      | param name' => cases hjoins
      | cast =>
          cases h
          exact extendsWord_colon w
      | rune y =>
          cases h
          by_contra hextends
          rw [joins, extendsWord_nil (Bool.not_eq_false _ ▸ hextends)] at hjoins
          cases hjoins

/-- The native placeholders of the bound template are those the binder has inserted. -/
theorem filter_words_bound {us : List Lexeme} (hcode : us.all (unreserved d) = true)
    (hapart : us.IsChain (Beside d)) {word : Option (Text × Text)} (hword : Begun d word us)
    (done : Text) (n : Nat) :
    (words d done word (boundLexemes (placeholderForDialect d) n us)).filter (fun p => isNative d p.2) =
      placedFrom (placeholderForDialect d) done n us := by
  induction us generalizing done n word with
  | nil => exact hword.filter
  | cons x us ih =>
      obtain ⟨hx, hus⟩ := Bool.and_eq_true_iff.mp (List.all_cons ▸ hcode)
      have hbeside : ∀ y ∈ us.head?, Beside d x y := by
        intro y hy
        obtain ⟨vs, rfl⟩ := List.head?_eq_some_iff.mp hy
        exact (List.isChain_cons_cons.mp hapart).1
      replace ih := fun word (h : Begun d word us) => ih hus hapart.of_cons h
      cases x with
      | region text =>
          rw [boundLexemes_region, words_cons_region done word rfl, List.filter_append, hword.filter,
            ih _ (begun_none us)]
          rfl
      | rune c =>
          have hc : c ≠ sigil d := by
            rintro rfl
            have hfree : unreserved d (.rune (sigil d)) = false := by cases d <;> rfl
            exact absurd (hx.symm.trans hfree) (by decide)
          obtain ⟨front, word', heq, hfront, hbegun⟩ :=
            hword.rune hc hbeside done (boundLexemes (placeholderForDialect d) n us)
          rw [boundLexemes_rune, heq, List.filter_append, hfront, ih _ hbegun]
          rfl
      | cast =>
          have hd : d ≠ .oracle := by
            rintro rfl
            cases hx
          rw [boundLexemes, words_colon hd, words_colon hd, List.filter_append, hword.filter,
            List.append_assoc]
          exact ih none (begun_none us) _ n
      | param name =>
          obtain rfl : word = none := by
            cases word with
            | none => rfl
            | some p => cases (hword p rfl).2 _ rfl
          have hends : ∀ c back, boundLexemes (placeholderForDialect d) (n + 1) us = .rune c :: back →
              extendsWord d (placeholderForDialect d (n + 1)) c = false :=
            fun c back => extendsWord_behind_param hbeside
          rw [boundLexemes]
          show nativesFrom d done _ = _
          rw [nativesFrom_placeholder done (n + 1) hends, placedFrom, ← ih none (begun_none us)]
          rfl

end Words

/-! ## The edges of a template -/

section Edges

variable {d : Dialect}

/-- A class of runes that neither a reference nor a placeholder has. -/
structure Foreign (p : Char → Bool) : Prop where
  inert : ∀ c, p c = true → inert c = true
  question : p '?' = false
  atSign : p '@' = false

theorem foreign_isSpace : Foreign Strings.isSpace := ⟨fun _ => inert_of_isSpace, rfl, rfl⟩

theorem foreign_semicolon : Foreign (· = ';') := by
  refine ⟨fun c hc => ?_, rfl, rfl⟩
  rw [of_decide_eq_true hc]
  exact inert_semicolon

theorem Foreign.of_not_inert {p : Char → Bool} (hp : Foreign p) {c : Char}
    (hc : Connectors.inert c = false) : p c = false := by
  by_contra htrue
  rw [hp.inert c (Bool.not_eq_false _ ▸ htrue)] at hc
  cases hc

theorem Foreign.identPart {p : Char → Bool} (hp : Foreign p) {c : Char} (hc : isIdentPart c = true) :
    p c = false := by
  refine hp.of_not_inert ?_
  simp [Connectors.inert, hc]

theorem Foreign.placeholder {p : Char → Bool} (hp : Foreign p) (n : Nat) :
    ∀ c ∈ placeholderForDialect d n, p c = false := by
  have hdigits : ∀ c ∈ Strings.decimal n, p c = false :=
    fun c hc => hp.identPart (isIdentPart_of_isDigit (Strings.isDigit_decimal hc))
  cases d with
  | postgres => exact List.forall_mem_cons.mpr ⟨hp.of_not_inert rfl, hdigits⟩
  | sqlserver =>
      refine List.forall_mem_cons.mpr ⟨hp.atSign, ?_⟩
      exact List.forall_mem_cons.mpr ⟨hp.identPart rfl, hdigits⟩
  | oracle => exact List.forall_mem_cons.mpr ⟨hp.of_not_inert rfl, hdigits⟩
  | mysql => exact List.forall_mem_singleton.mpr hp.question
  | other => exact List.forall_mem_singleton.mpr hp.question

theorem Foreign.sigil {p : Char → Bool} (hp : Foreign p) : p (sigil d) = false := by
  refine hp.placeholder (d := d) 0 _ (List.mem_of_mem_head? ?_)
  rw [head?_placeholder]
  exact Option.mem_some_self _

theorem getLast?_any_of_forall {p : Char → Bool} {s : Text} (h : ∀ c ∈ s, p c = false) :
    s.getLast?.any p = false := by
  cases hs : s.getLast? with
  | none => rfl
  | some c => exact h c (List.mem_of_getLast? hs)

theorem sqlText_eq_nil_iff (n : Nat) (us : List Lexeme) :
    sqlText (placeholderForDialect d) n us = [] ↔ textOf us = [] := by
  rw [← List.head?_eq_none_iff, ← List.head?_eq_none_iff]
  rcases head?_sqlText (d := d) n us with heq | ⟨hcolon, hhead⟩
  · rw [heq]
  · rw [hcolon, hhead]
    simp

/-- A bound text ends with a rune of the class exactly if the template does. -/
theorem getLast?_sqlText_any {p : Char → Bool} (hp : Foreign p) {us : List Lexeme}
    (hnames : ∀ name ∈ paramNames us, IsName name) (n : Nat) :
    (sqlText (placeholderForDialect d) n us).getLast?.any p = (textOf us).getLast?.any p := by
  induction us generalizing n with
  | nil => rfl
  | cons t us ih =>
      -- what stands last is in `us`, if there is a rune
      have hlast : ∀ {s s' : Text} {m : Nat}, s.getLast?.any p = s'.getLast?.any p →
          (∀ name ∈ paramNames us, IsName name) →
          (s ++ sqlText (placeholderForDialect d) m us).getLast?.any p =
            (s' ++ textOf us).getLast?.any p := by
        intro s s' m hs hus
        by_cases hnil : textOf us = []
        · rw [hnil, (sqlText_eq_nil_iff m us).mpr hnil, List.append_nil, List.append_nil, hs]
        · rw [List.getLast?_append_of_ne_nil _ hnil,
            List.getLast?_append_of_ne_nil _ (mt (sqlText_eq_nil_iff m us).mp hnil), ih hus]
      rw [textOf, List.flatMap_cons]
      cases t using Lexeme.cases_name with
      | copied t ht =>
          rw [sqlText_cons_none _ n ht]
          rw [paramNames_cons_none ht] at hnames
          exact hlast rfl hnames
      | param name =>
          rw [paramNames_cons_param] at hnames
          have hname := hnames name List.mem_cons_self
          have hreference : (':' :: name).getLast?.any p = false := by
            refine getLast?_any_of_forall (List.forall_mem_cons.mpr ⟨hp.of_not_inert rfl, ?_⟩)
            exact fun c hc => hp.identPart (hname.2 c hc)
          refine hlast ?_ fun other hmem => hnames other (List.mem_cons_of_mem _ hmem)
          rw [getLast?_any_of_forall (hp.placeholder (n + 1))]
          exact hreference.symm

/-- A bound text starts with a rune of the class exactly if the template does. -/
theorem head?_sqlText_any {p : Char → Bool} (hp : Foreign p) (n : Nat) (us : List Lexeme) :
    (sqlText (placeholderForDialect d) n us).head?.any p = (textOf us).head?.any p := by
  rcases head?_sqlText (d := d) n us with heq | ⟨hcolon, hhead⟩
  · rw [heq]
  · rw [hcolon, hhead, Option.any_some, Option.any_some, hp.sigil, hp.of_not_inert rfl]

/-- The bound template has the same frame as the template. -/
theorem framed_bound {lead semi trail : Text} {us : List Lexeme}
    (hnames : ∀ name ∈ paramNames us, IsName name) (h : Framed lead (textOf us) semi trail) (n : Nat) :
    Framed lead (sqlText (placeholderForDialect d) n us) semi trail := by
  have htext : textOf us ++ semi = textOf (us ++ semi.map .rune) := by
    rw [textOf, textOf, List.flatMap_append]
    exact congrArg (textOf us ++ ·) (textOf_runes semi).symm
  have hall : ∀ name ∈ paramNames (us ++ semi.map .rune), IsName name := by
    rwa [paramNames_append, paramNames_runes, List.append_nil]
  refine ⟨h.lead, h.trail, ?_, ?_, ?_⟩
  · rw [← sqlText_append_runes, head?_sqlText_any foreign_isSpace, ← htext]
    exact h.head
  · rw [← sqlText_append_runes, getLast?_sqlText_any foreign_isSpace hall, ← htext]
    exact h.last
  · rw [getLast?_sqlText_any foreign_semicolon hnames]
    exact h.semi

end Edges

/-! ## Clean templates are clear -/

section Clean

variable {d : Dialect} {q : Text}

theorem copied_of_inert {w : Text} (hw : Inert w) : Copied w :=
  .of_forall fun c hc => isCopied_of rfl (hw c hc)

theorem lexesTo_of_ends {s : Text} (h : bindLexemes (s ++ [' ']) = bindLexemes s ++ [.rune ' ']) :
    LexesTo (lexeme plainForms true) (s ++ [' ']) (bindLexemes s) [' '] := by
  have hlex := lexes_bindLexemes (s ++ [' '])
  rw [h] at hlex
  obtain ⟨m, hs, hm⟩ := LexesTo.of_append hlex
  have htext := lexesTo_text plainForms_proper hm
  cases htext
  exact hs

theorem textOf_bindLexemes (s : Text) : textOf (bindLexemes s) = s :=
  lexes_text plainForms_proper (lexes_bindLexemes s)

/-- A template between inert runes, as `Bind` reads it. -/
theorem bindLexemes_frame {lead base w : Text} (hlead : Inert lead) (hw : Inert w)
    (hends : LexesTo (lexeme plainForms true) (base ++ [' ']) (bindLexemes base) [' ']) :
    bindLexemes (lead ++ (base ++ w)) = lead.map .rune ++ (bindLexemes base ++ w.map .rune) ∧
      LexesTo (lexeme plainForms true) (lead ++ (base ++ w) ++ [' '])
        (bindLexemes (lead ++ (base ++ w))) [' '] := by
  have hread : ∀ v, Inert v → LexesTo (lexeme plainForms true) (lead ++ (base ++ w) ++ v)
      (lead.map .rune ++ (bindLexemes base ++ w.map .rune)) v := by
    intro v hv
    have hbase := lexesTo_change_inert (w := w ++ v) (List.forall_mem_append.mpr ⟨hw, hv⟩) hends
    rw [textOf_bindLexemes] at hbase
    rw [List.append_assoc, List.append_assoc]
    exact ((copied_of_inert hlead).lexesTo _).trans (hbase.trans ((copied_of_inert hw).lexesTo v))
  have hlexemes : bindLexemes (lead ++ (base ++ w)) =
      lead.map .rune ++ (bindLexemes base ++ w.map .rune) := by
    have hlex := hread [] fun c hc => absurd hc List.not_mem_nil
    rw [List.append_nil] at hlex
    exact (lexes_bindLexemes _).unique (lexeme_consuming plainForms_proper true) hlex
  refine ⟨hlexemes, ?_⟩
  rw [hlexemes]
  exact hread [' '] (List.forall_mem_singleton.mpr (by decide))

theorem placedFrom_append (ph : Placeholder) (lead done : Text) (n : Nat) (us : List Lexeme) :
    placedFrom ph (lead ++ done) n us = (placedFrom ph done n us).map fun p => (lead ++ p.1, p.2) := by
  induction us generalizing done n with
  | nil => rfl
  | cons t us ih =>
      cases t using Lexeme.cases_name with
      | copied t ht =>
          rw [placedFrom_cons_none ph _ n ht, placedFrom_cons_none ph done n ht, List.append_assoc, ih]
      | param name =>
          rw [placedFrom, placedFrom, List.append_assoc, ih, List.map_cons]

theorem placedFrom_runes (ph : Placeholder) (done : Text) (n : Nat) (us : List Lexeme) (w : Text) :
    placedFrom ph done n (us ++ w.map .rune) = placedFrom ph done n us := by
  induction us generalizing done n with
  | nil =>
      induction w generalizing done with
      | nil => rfl
      | cons c w ih => exact ih (done ++ [c])
  | cons t us ih =>
      cases t using Lexeme.cases_name with
      | copied t ht =>
          rw [List.cons_append, placedFrom_cons_none ph _ n ht, placedFrom_cons_none ph done n ht, ih]
      | param name =>
          rw [List.cons_append, placedFrom, placedFrom, ih]

theorem placedFrom_lead (ph : Placeholder) (done lead : Text) (n : Nat) (us : List Lexeme) :
    placedFrom ph done n (lead.map .rune ++ us) = placedFrom ph (done ++ lead) n us := by
  induction lead generalizing done with
  | nil => rw [List.map_nil, List.nil_append, List.append_nil]
  | cons c lead ih =>
      rw [List.map_cons, List.cons_append, placedFrom_cons_none ph done n rfl, ih, List.append_assoc]
      rfl

/-- A placeholder stands behind a part of the bound text. -/
theorem prefix_of_mem_placedFrom {ph : Placeholder} {done : Text} {n : Nat} {us : List Lexeme}
    {p : Text × Text} (hp : p ∈ placedFrom ph done n us) : p.1 <+: done ++ sqlText ph n us := by
  induction us generalizing done n with
  | nil => cases hp
  | cons t us ih =>
      cases t using Lexeme.cases_name with
      | copied t ht =>
          rw [placedFrom_cons_none ph done n ht] at hp
          rw [sqlText_cons_none ph n ht, ← List.append_assoc]
          exact ih hp
      | param name =>
          rw [placedFrom, List.mem_cons] at hp
          rcases hp with rfl | hp
          · exact List.prefix_append _ _
          · rw [sqlText, ← List.append_assoc]
            exact ih hp

/-- Without the white space in front of it the bound template has the placeholders of what a
clause is appended to. -/
theorem placedTrimmed_frame {lead w : Text} {us : List Lexeme}
    (hlead : ∀ c ∈ lead, Strings.isSpace c = true)
    (hhead : (sqlText (placeholderForDialect d) 0 us).head?.any Strings.isSpace = false) :
    (placedFrom (placeholderForDialect d) [] 0 (lead.map .rune ++ (us ++ w.map .rune))).map
        (fun p => (p.1.dropWhile Strings.isSpace, p.2)) =
      placedFrom (placeholderForDialect d) [] 0 us := by
  have hshift := placedFrom_append (placeholderForDialect d) lead [] 0 us
  rw [List.append_nil] at hshift
  rw [placedFrom_lead, List.nil_append, placedFrom_runes, hshift, List.map_map]
  refine (List.map_congr_left fun p hp => ?_).trans (List.map_id _)
  have hstop : p.1.dropWhile Strings.isSpace = p.1 := by
    obtain ⟨back, hback⟩ := prefix_of_mem_placedFrom hp
    rw [List.nil_append] at hback
    rw [← hback] at hhead
    cases hfirst : p.1 with
    | nil => rfl
    | cons c v =>
        rw [hfirst] at hhead
        have hc : Strings.isSpace c = false := hhead
        rw [List.dropWhile_cons_of_neg (by rw [hc]; decide)]
  show ((lead ++ p.1).dropWhile Strings.isSpace, p.2) = p
  rw [List.dropWhile_append_of_pos hlead, hstop]

/-- What `Bind` reads up to a blank has its own placeholders, in a bound text that ends in code. -/
theorem natives_bound {s : Text} {us : List Lexeme}
    (hread : LexesTo (lexeme plainForms true) s us [' ']) (hcode : us.all (unreserved d) = true)
    (hapart : us.IsChain (Beside d)) :
    let bound := sqlText (placeholderForDialect d) 0 us
    natives d bound = placedFrom (placeholderForDialect d) [] 0 us ∧
      natives d (bound ++ [' ']) = placedFrom (placeholderForDialect d) [] 0 us ∧
        endsInCode d bound = true := by
  intro bound
  have hwords := filter_words_bound hcode hapart (begun_none us) [] 0
  have hblank := lexesTo_bound hread hcode hapart (w := [' ']) (List.forall_mem_singleton.mpr rfl) 0
  have hlex := lexesTo_bound hread hcode hapart (w := []) (fun c hc => absurd hc List.not_mem_nil) 0
  rw [List.append_nil] at hlex
  refine ⟨?_, ?_, endsInCode_of_reads hblank⟩
  · rw [natives_eq hlex, hwords]
  · rw [natives_eq (hblank.trans (.single (codeLexeme_blank d []))), words_append_break breaks_blank,
      words, Option.toList_none, List.append_nil, hwords]

theorem Clean.clear (h : Clean d q) (limit : Int) : Clear d q limit := by
  obtain ⟨lead, semi, trail, hq, hframe⟩ := exists_framed q
  have hends := lexesTo_of_ends h.ends
  generalize paginationBase q = base at hq hframe hends
  have hsemi : Inert (semi ++ trail) := by
    refine List.forall_mem_append.mpr ⟨?_, fun c hc => inert_of_isSpace (hframe.trail c hc)⟩
    rcases hframe.semi with rfl | ⟨rfl, -⟩
    · exact List.forall_mem_singleton.mpr inert_semicolon
    · exact fun c hc => absurd hc List.not_mem_nil
  rw [List.append_assoc] at hq
  obtain ⟨hlexemes, hread⟩ :=
    bindLexemes_frame (fun c hc => inert_of_isSpace (hframe.lead c hc)) hsemi hends
  rw [← hq] at hlexemes hread
  have hpart : (bindLexemes base).all (unreserved d) = true ∧
      (bindLexemes base).IsChain (Beside d) := by
    have hcode := h.code
    have hapart := h.apart
    rw [hlexemes] at hcode hapart
    rw [List.all_append, List.all_append, Bool.and_eq_true, Bool.and_eq_true] at hcode
    exact ⟨hcode.2.1, hapart.right_of_append.left_of_append⟩
  have hnames : ∀ name ∈ paramNames (bindLexemes base), IsName name := lexesTo_names hends
  have hbound := framed_bound (d := d) hnames ((textOf_bindLexemes base).symm ▸ hframe) 0
  have hbase : paginationBase (boundText d q) =
      sqlText (placeholderForDialect d) 0 (bindLexemes base) := by
    rw [boundText, hlexemes, sqlText_runes_append, sqlText_append_runes,
      ← List.append_assoc _ semi trail]
    exact hbound.paginationBase_eq
  unfold Clear
  split
  next _ => exact (natives_bound hread h.code h.apart).1
  next _ =>
    obtain ⟨-, hnatives, hcode⟩ := natives_bound hends hpart.1 hpart.2
    rw [hbase, hnatives, placedTrimmed, placed, hlexemes]
    exact ⟨hcode, (placedTrimmed_frame hframe.lead hbound.base_head).symm⟩

/-- In PostgreSQL the identifier of the last template runs into the placeholder. -/
example : Clean .mysql "SELECT 'a' WHERE b = :b;".toList ∧
    Clean .oracle "SELECT 'a' WHERE b = :b;".toList ∧
    Clean .sqlserver "SELECT 'a' WHERE b = :b;".toList ∧ ¬Clean .postgres "SELECT a:b".toList := by
  decide +kernel

end Clean

/-! ## Statements whose placeholders are those of their arguments -/

/-- For every API and every parameters that `Bind` succeeds on, every limit and every offset: if the
template is clean, the native placeholders of the statement are those of its arguments, in order,
and in general they are exactly if the bound template is clear. -/
theorem placeholders_counted_iff (api : APIDefinition) (hd : Supported api.connectorType)
    {params : Table Value} {sql : Text} {args : List Value}
    (hbind : bind api.queryTemplate params (placeholderForDialect api.dialect) = some (.ok (sql, args)))
    (limit offset : Int) :
    let statement := applyPagination sql args api.connectorType limit offset
    (Clean api.dialect api.queryTemplate → Counts api.dialect api.queryTemplate limit statement) ∧
      (Counts api.dialect api.queryTemplate limit statement ↔
        Clear api.dialect api.queryTemplate limit) := by
  have hiff := counts_iff hd hbind limit offset
  exact ⟨fun h => hiff.mpr (h.clear limit), hiff⟩

def templateAPI (dbType template : String) : APIDefinition :=
  { connectorType := dbType.toList, defaultLimit := 1, queryTemplate := template.toList }

theorem clean_template_counted :
    Counts .postgres "SELECT a FROM t WHERE b = :b AND c < :c;".toList 10
      (applyPagination "SELECT a FROM t WHERE b = $1 AND c < $2;".toList [.int 7, .int 7]
        "postgres".toList 10 0) := by
  have hbind : bind (templateAPI "postgres" "SELECT a FROM t WHERE b = :b AND c < :c;").queryTemplate
      (fun _ => some (Value.int 7)) (placeholderForDialect .postgres) =
        some (.ok ("SELECT a FROM t WHERE b = $1 AND c < $2;".toList, [Value.int 7, Value.int 7])) := by
    decide +kernel
  have hcounted := placeholders_counted_iff
    (templateAPI "postgres" "SELECT a FROM t WHERE b = :b AND c < :c;") (by decide +kernel) hbind 10 0
  exact hcounted.1 (by decide +kernel)

/-- A published template without parameters whose statement has other placeholders than its
arguments. -/
structure Miscounts (dbType q : String) (limit : Int) : Prop where
  published : (validateForPublish (fun _ => none) id (templateAPI dbType q) []).run = some (.ok ())
  noBuilder : queryBuilderFromAPI (templateAPI dbType q) = .ok none
  bound : bind q.toList (fun _ => none) (placeholderForDialect (.ofText dbType.toList)) =
    some (.ok (q.toList, ([] : List Value)))
  miscounted : ∀ offset, ¬Counts (.ofText dbType.toList) q.toList limit
    (applyPagination q.toList [] dbType.toList limit offset)

theorem Miscounts.of_unclear {dbType q : String} {limit : Int} (hd : Supported dbType.toList)
    (hpublished : (validateForPublish (fun _ => none) id (templateAPI dbType q) []).run = some (.ok ()))
    (hbound : bind q.toList (fun _ => none) (placeholderForDialect (.ofText dbType.toList)) =
      some (.ok (q.toList, ([] : List Value))))
    (hclear : ¬Clear (.ofText dbType.toList) q.toList limit) : Miscounts dbType q limit where
  published := hpublished
  noBuilder := rfl
  bound := hbound
  miscounted offset h := hclear ((counts_iff hd hbound limit offset).mp h)

/-- Templates that hold a placeholder of their own, and one whose clause is in a comment. -/
theorem placeholders_miscounted :
    Miscounts "mysql" "SELECT ? FROM t" 0 ∧ Miscounts "sqlserver" "SELECT @p1 FROM t" 10 ∧
      Miscounts "oracle" "SELECT :1 FROM t" 10 ∧ Miscounts "postgres" "SELECT 1 -- c" 10 :=
  ⟨.of_unclear (by decide +kernel) (by decide +kernel) (by decide +kernel) (by decide +kernel),
    .of_unclear (by decide +kernel) (by decide +kernel) (by decide +kernel) (by decide +kernel),
    .of_unclear (by decide +kernel) (by decide +kernel) (by decide +kernel) (by decide +kernel),
    .of_unclear (by decide +kernel) (by decide +kernel) (by decide +kernel) (by decide +kernel)⟩

end DDAG.Gateway
