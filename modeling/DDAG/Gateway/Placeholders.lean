import DDAG.Connectors.Substitution
import DDAG.Gateway.Words

/-!
# The placeholders of a statement

The native placeholders of a statement come from three places: the template, the binder and
the paginator.  The arguments are those of the binder and of the paginator, so the statement is
right when the native placeholders it has are the ones these two have inserted (`Counts`).

The clause of the paginator starts with a blank, and its own placeholders are always words.  So
only two things can go wrong behind the bound template: the template does not end at a code
position, or its placeholders were not right before (`natives_clause_iff`, `counts_iff`).
-/

namespace DDAG.Gateway

open Models Machine
open Connectors

/-! ## The clause -/

/-- The texts around the two placeholders of the clause. -/
def clauseParts (d : Dialect) (base : Text) : Text × Text × Text :=
  match d with
  | .postgres => (" LIMIT ".toList, " OFFSET ".toList, [])
  | .mysql => (" LIMIT ".toList, ", ".toList, [])
  | .sqlserver =>
      (addedOrder base ++ " OFFSET ".toList, " ROWS FETCH NEXT ".toList, " ROWS ONLY".toList)
  | .oracle => (" OFFSET ".toList, " ROWS FETCH NEXT ".toList, " ROWS ONLY".toList)
  | .other => ([], [], [])

def around (ph : Placeholder) (n : Nat) (parts : Text × Text × Text) : Text :=
  parts.1 ++ (ph (n + 1) ++ (parts.2.1 ++ (ph (n + 2) ++ parts.2.2)))

theorem paginationClause_eq {d : Dialect} (hd : d ≠ .other) (base : Text) (n : Nat) :
    paginationClause d base n = around (placeholderForDialect d) n (clauseParts d base) := by
  cases d with
  | postgres =>
      show " LIMIT $".toList ++ Strings.decimal (n + 1) ++
          (" OFFSET $".toList ++ Strings.decimal (n + 2)) =
        " LIMIT ".toList ++ ('$' :: Strings.decimal (n + 1) ++
          (" OFFSET ".toList ++ ('$' :: Strings.decimal (n + 2) ++ [])))
      rw [show " LIMIT $".toList = " LIMIT ".toList ++ ['$'] from rfl,
        show " OFFSET $".toList = " OFFSET ".toList ++ ['$'] from rfl, List.append_nil,
        List.append_assoc, List.append_assoc, List.append_assoc]
      rfl
  | mysql =>
      exact (rfl : " LIMIT ?, ?".toList =
        " LIMIT ".toList ++ (['?'] ++ (", ".toList ++ (['?'] ++ []))))
  | sqlserver =>
      show addedOrder base ++ (" OFFSET @p".toList ++ Strings.decimal (n + 1) ++
          (" ROWS FETCH NEXT @p".toList ++ Strings.decimal (n + 2) ++ " ROWS ONLY".toList)) =
        addedOrder base ++ " OFFSET ".toList ++ ('@' :: 'p' :: Strings.decimal (n + 1) ++
          (" ROWS FETCH NEXT ".toList ++ ('@' :: 'p' :: Strings.decimal (n + 2) ++ " ROWS ONLY".toList)))
      rw [show " OFFSET @p".toList = " OFFSET ".toList ++ ['@', 'p'] from rfl,
        show " ROWS FETCH NEXT @p".toList = " ROWS FETCH NEXT ".toList ++ ['@', 'p'] from rfl]
      simp only [List.append_assoc]
      rfl
  | oracle =>
      show " OFFSET :".toList ++ Strings.decimal (n + 1) ++
          (" ROWS FETCH NEXT :".toList ++ Strings.decimal (n + 2) ++ " ROWS ONLY".toList) =
        " OFFSET ".toList ++ (':' :: Strings.decimal (n + 1) ++
          (" ROWS FETCH NEXT ".toList ++ (':' :: Strings.decimal (n + 2) ++ " ROWS ONLY".toList)))
      rw [show " OFFSET :".toList = " OFFSET ".toList ++ [':'] from rfl,
        show " ROWS FETCH NEXT :".toList = " ROWS FETCH NEXT ".toList ++ [':'] from rfl]
      simp only [List.append_assoc]
      rfl
  | other => exact absurd rfl hd

theorem lexes_around {d : Dialect} {parts : Text × Text × Text} (n : Nat)
    (hcode : (parts.1 ++ (parts.2.1 ++ parts.2.2)).all (isCodeRune d) = true) :
    Lexes (codeLexeme d) (around (placeholderForDialect d) n parts)
      ((around (placeholderForDialect d) n parts).map .rune) := by
  simp only [List.all_append, Bool.and_eq_true] at hcode
  obtain ⟨h1, h2, h3⟩ := hcode
  have hlast : LexesTo (codeLexeme d) parts.2.2 (parts.2.2.map .rune) [] := by
    have hread := lexesTo_codeRunes h3 []
    rwa [List.append_nil] at hread
  unfold around
  simp only [List.map_append]
  exact (lexesTo_codeRunes h1 _).trans ((lexesTo_placeholder (n + 1) _).trans
    ((lexesTo_codeRunes h2 _).trans ((lexesTo_placeholder (n + 2) _).trans hlast)))

/-- Texts around two placeholders in which the placeholders are words and nothing else is
a placeholder. -/
structure Separates (d : Dialect) (parts : Text × Text × Text) : Prop where
  code : (parts.1 ++ (parts.2.1 ++ parts.2.2)).all (isCodeRune d) = true
  first : ∃ s, parts.1 = s ++ [' '] ∧ sigil d ∉ s
  second : ∃ s, parts.2.1 = s ++ [' '] ∧ sigil d ∉ s
  last : sigil d ∉ parts.2.2
  ends : ∀ c, parts.2.1.head? = some c ∨ parts.2.2.head? = some c →
    ∀ n, extendsWord d (placeholderForDialect d n) c = false

theorem clauseParts_separates {d : Dialect} (hd : d ≠ .other) (base : Text) :
    Separates d (clauseParts d base) := by
  have hblank : ∀ {w : Text} {c : Char}, (' ' :: w).head? = some c →
      ∀ n, extendsWord d (placeholderForDialect d n) c = false := by
    rintro w c hc n
    cases hc
    exact extendsWord_blank _
  cases d with
  | postgres =>
      refine ⟨rfl, ⟨" LIMIT".toList, rfl, by decide⟩, ⟨" OFFSET".toList, rfl, by decide⟩,
        List.not_mem_nil, ?_⟩
      rintro c (hc | hc)
      · exact hblank hc
      · cases hc
  | mysql =>
      exact ⟨rfl, ⟨" LIMIT".toList, rfl, by decide⟩, ⟨",".toList, rfl, by decide⟩, List.not_mem_nil,
        fun _ _ _ => rfl⟩
  | sqlserver =>
      have horder : (addedOrder base).all (isCodeRune .sqlserver) = true ∧ '@' ∉ addedOrder base := by
        unfold addedOrder
        split
        next _ => exact ⟨rfl, by decide⟩
        next _ => exact ⟨rfl, by decide⟩
      refine ⟨?_, ⟨addedOrder base ++ " OFFSET".toList, ?_, ?_⟩,
        ⟨" ROWS FETCH NEXT".toList, rfl, by decide⟩, (by decide : '@' ∉ " ROWS ONLY".toList), ?_⟩
      · show (addedOrder base ++ " OFFSET ".toList ++ _).all _ = true
        rw [List.all_append, List.all_append, horder.1]
        rfl
      · show addedOrder base ++ " OFFSET ".toList = _
        rw [List.append_assoc]
        rfl
      · rw [List.mem_append, not_or]
        exact ⟨horder.2, by decide⟩
      · rintro c (hc | hc)
        · exact hblank hc
        · exact hblank hc
  | oracle =>
      refine ⟨rfl, ⟨" OFFSET".toList, rfl, by decide⟩, ⟨" ROWS FETCH NEXT".toList, rfl, by decide⟩,
        (by decide : ':' ∉ " ROWS ONLY".toList), ?_⟩
      rintro c (hc | hc)
      · exact hblank hc
      · exact hblank hc
  | other => exact absurd rfl hd

/-- The placeholders between the parts of a clause, each with the text before it. -/
def placedAround (ph : Placeholder) (n : Nat) (parts : Text × Text × Text) (done : Text) :
    List (Text × Text) :=
  [(done ++ parts.1, ph (n + 1)), (done ++ parts.1 ++ ph (n + 1) ++ parts.2.1, ph (n + 2))]

theorem head?_of_runes {s : Text} {ts back : List Lexeme} {c : Char} (hs : s ≠ [] ∨ ts = [])
    (h : s.map .rune ++ ts = .rune c :: back) : s.head? = some c := by
  cases s with
  | nil =>
      obtain rfl := hs.resolve_left (fun hne => hne rfl)
      cases h
  | cons x s =>
      cases h
      rfl

theorem nativesFrom_around {d : Dialect} {parts : Text × Text × Text} (h : Separates d parts)
    (n : Nat) (done : Text) :
    nativesFrom d done ((around (placeholderForDialect d) n parts).map .rune) =
      placedAround (placeholderForDialect d) n parts done := by
  obtain ⟨first, second, last⟩ := parts
  obtain ⟨s, rfl, hs⟩ := h.first
  obtain ⟨s', rfl, hs'⟩ := h.second
  have hlast : ∀ x, nativesFrom d x (last.map .rune) = [] := by
    intro x
    refine filter_words_eq_nil (fun hmem => ?_) x
    obtain ⟨c, hc, heq⟩ := List.mem_map.mp hmem
    cases heq
    exact h.last hc
  have hsecond : ∀ c back ts, (s' ++ [' ']).map Lexeme.rune ++ ts = .rune c :: back →
      extendsWord d (placeholderForDialect d (n + 1)) c = false := by
    intro c back ts heq
    exact h.ends c (.inl (head?_of_runes (.inl (by simp)) heq)) (n + 1)
  have hthird : ∀ c back, last.map Lexeme.rune = .rune c :: back →
      extendsWord d (placeholderForDialect d (n + 2)) c = false := by
    intro c back heq
    exact h.ends c (.inr (head?_of_runes (.inr rfl) ((List.append_nil _).trans heq))) (n + 2)
  have hmap : (around (placeholderForDialect d) n (s ++ [' '], s' ++ [' '], last)).map Lexeme.rune =
      (s ++ [' ']).map .rune ++ ((placeholderForDialect d (n + 1)).map .rune ++
        ((s' ++ [' ']).map .rune ++ ((placeholderForDialect d (n + 2)).map .rune ++
          last.map .rune))) := by
    simp only [around, List.map_append]
  rw [hmap, nativesFrom_text done hs, nativesFrom_placeholder _ _ fun c back => hsecond c back _,
    nativesFrom_text _ hs', nativesFrom_placeholder _ _ hthird, hlast]
  rfl

/-! ## Inserted placeholders -/

/-- The placeholders the binder inserts, each with the text before it. -/
def placedFrom (ph : Placeholder) : Text → Nat → List Lexeme → List (Text × Text)
  | _, _, [] => []
  | done, n, .param _ :: us => (done, ph (n + 1)) :: placedFrom ph (done ++ ph (n + 1)) (n + 1) us
  | done, n, t :: us => placedFrom ph (done ++ t.text) n us

theorem placedFrom_cons_none (ph : Placeholder) (done : Text) (n : Nat) {t : Lexeme}
    (ht : t.name? = none) (us : List Lexeme) :
    placedFrom ph done n (t :: us) = placedFrom ph (done ++ t.text) n us := by
  cases t <;> first | rfl | cases ht

/-- The binder numbers its placeholders one after the other. -/
theorem placedFrom_tokens (ph : Placeholder) (done : Text) (n : Nat) (us : List Lexeme) :
    (placedFrom ph done n us).map Prod.snd = (List.range' (n + 1) (paramNames us).length).map ph := by
  induction us generalizing done n with
  | nil => rfl
  | cons t us ih =>
      cases t using Lexeme.cases_name with
      | copied t ht => rw [placedFrom_cons_none ph done n ht, ih, paramNames_cons_none ht]
      | param name =>
          rw [placedFrom, List.map_cons, ih, paramNames_cons_param, List.length_cons, List.range'_succ,
            List.map_cons]

/-- The lexemes `Bind` reads a template as. -/
def bindLexemes (q : Text) : List Lexeme := (lexAll (lexeme plainForms true) q).getD []

theorem lexes_bindLexemes (q : Text) : Lexes (lexeme plainForms true) q (bindLexemes q) := by
  obtain ⟨us, hus⟩ := exists_lexes_plain q
  rwa [bindLexemes, (lexAll_eq_some_iff (lexeme_consuming plainForms_proper true)).mpr hus,
    Option.getD_some]

/-- The placeholders of the bound template, and of the bound template without the white space
in front of it. -/
def placed (d : Dialect) (q : Text) : List (Text × Text) :=
  placedFrom (placeholderForDialect d) [] 0 (bindLexemes q)

def placedTrimmed (d : Dialect) (q : Text) : List (Text × Text) :=
  (placed d q).map fun p => (p.1.dropWhile Strings.isSpace, p.2)

def boundText (d : Dialect) (q : Text) : Text := sqlText (placeholderForDialect d) 0 (bindLexemes q)

/-- What the binder and the paginator insert in a statement, each placeholder with the text
before it. -/
def inserted (d : Dialect) (q : Text) (limit : Int) : List (Text × Text) :=
  if limit ≤ 0 then placed d q
  else
    let base := paginationBase (boundText d q)
    placedTrimmed d q ++
      placedAround (placeholderForDialect d) (paramNames (bindLexemes q)).length (clauseParts d base) base

/-- The native placeholders of a statement are the ones that were inserted in it, and they are
those of its arguments, in order. -/
structure Counts (d : Dialect) (q : Text) (limit : Int) (statement : Text × List Value) : Prop where
  own : natives d statement.1 = inserted d q limit
  numbered : (natives d statement.1).map Prod.snd =
    (List.range' 1 statement.2.length).map (placeholderForDialect d)

/-! ## Statements with a clause -/

theorem length_applyPagination {dbType : Text} (hd : Supported dbType) {limit : Int} (h : 1 ≤ limit)
    (sql : Text) (args : List Value) (offset : Int) :
    (applyPagination sql args dbType limit offset).2.length = args.length + 2 := by
  unfold applyPagination
  rw [if_neg (by omega), hd.toLower]
  cases hcase : Dialect.ofText dbType with
  | postgres => exact List.length_append
  | mysql => exact List.length_append
  | sqlserver => exact List.length_append
  | oracle => exact List.length_append
  | other => exact absurd hcase hd

/-- Behind a text that ends in code the clause has its two placeholders. -/
theorem natives_append_clause {d : Dialect} (hd : d ≠ .other) (base : Text) (n : Nat)
    {ts : List Lexeme} (hts : ∀ t, Quiet t → LexesTo (codeLexeme d) (base ++ t) ts t) :
    natives d (base ++ paginationClause d base n) =
      natives d (base ++ [' ']) ++
        placedAround (placeholderForDialect d) n (clauseParts d base) base := by
  have hquiet := quiet_paginationClause hd base n
  have hseparates := clauseParts_separates hd base
  have htext : textOf ts = base :=
    List.append_cancel_right (lexesTo_text (codeForms_proper d) (hts [' '] quiet_blank))
  have hclause : Lexes (codeLexeme d) (paginationClause d base n)
      ((paginationClause d base n).map .rune) := by
    rw [paginationClause_eq hd]
    exact lexes_around n hseparates.code
  have hplaced : nativesFrom d base ((paginationClause d base n).map .rune) =
      placedAround (placeholderForDialect d) n (clauseParts d base) base := by
    rw [paginationClause_eq hd]
    exact nativesFrom_around hseparates n base
  have hblank : natives d (base ++ [' ']) = nativesFrom d [] ts := by
    rw [natives_eq ((hts _ quiet_blank).trans (.single (codeLexeme_blank d []))),
      words_append_break breaks_blank, words, Option.toList_none, List.append_nil]
    rfl
  -- the blank of the clause ends the words of the text
  have hwords : words d [] none (ts ++ (paginationClause d base n).map .rune) =
      words d [] none ts ++ words d base none ((paginationClause d base n).map .rune) := by
    obtain ⟨clause, hcons⟩ := hquiet.exists_cons
    rw [hcons, List.map_cons, words_append_break breaks_blank, words_blank, htext]
    rfl
  rw [natives_eq ((hts _ hquiet).trans hclause), hwords, List.filter_append, hblank, ← hplaced]
  rfl

/-- A text whose end takes what is behind it has no placeholder there. -/
theorem length_before_of_takes {d : Dialect} {base t r : Text} {ts : List Lexeme} {x : Lexeme}
    (hr : textOf ts ++ r = base) (hne : r ≠ []) (hx : x.rune? = none)
    (hlex : Lexes (codeLexeme d) (base ++ t) (ts ++ [x])) {p : Text × Text}
    (hp : p ∈ natives d (base ++ t)) : p.1.length < base.length := by
  rw [natives_eq hlex, words_append_break (breaks_region hx), words, Option.toList_none,
    List.append_nil] at hp
  have hle := length_before_le (List.mem_of_mem_filter hp)
  have hlen := congrArg List.length hr
  rw [List.length_append] at hlen
  have hpos := List.length_pos_iff.mpr hne
  omega

/-- The placeholders of a text with a clause behind it are those of the text and of the clause
exactly if the text ends in code. -/
theorem natives_clause_iff {d : Dialect} (hd : d ≠ .other) (base : Text) (n : Nat)
    (own : List (Text × Text)) :
    natives d (base ++ paginationClause d base n) =
        own ++ placedAround (placeholderForDialect d) n (clauseParts d base) base ↔
      endsInCode d base = true ∧ natives d (base ++ [' ']) = own := by
  rcases reads_or_takes d base with ⟨ts, hts⟩ | ⟨ts, r, hr, hne, hts⟩
  · rw [natives_append_clause hd base n hts, List.append_left_inj]
    exact (and_iff_right (endsInCode_of_reads (hts [' '] quiet_blank))).symm
  · constructor
    · intro heq
      obtain ⟨x, hx, hlex⟩ := hts _ (quiet_paginationClause hd base n)
      have hmem : (base ++ (clauseParts d base).1, placeholderForDialect d (n + 1)) ∈
          natives d (base ++ paginationClause d base n) := by
        rw [heq]
        exact List.mem_append_right _ List.mem_cons_self
      have hlt := length_before_of_takes hr hne hx hlex hmem
      simp only [List.length_append] at hlt
      omega
    · rintro ⟨hcode, -⟩
      obtain ⟨x, hx, hlex⟩ := hts _ quiet_blank
      rw [endsInCode_of_takes hx hlex] at hcode
      cases hcode

/-- What the binder and the paginator insert is numbered through. -/
theorem inserted_tokens {dbType q sql : Text} (hd : Supported dbType) {args : List Value}
    (hargs : args.length = (paramNames (bindLexemes q)).length) (limit offset : Int) :
    (inserted (.ofText dbType) q limit).map Prod.snd =
      (List.range' 1 (applyPagination sql args dbType limit offset).2.length).map
        (placeholderForDialect (.ofText dbType)) := by
  by_cases hlimit : limit ≤ 0
  · rw [inserted, if_pos hlimit, placed, placedFrom_tokens, applyPagination_none hlimit, hargs]
  · have htrimmed : (placedTrimmed (.ofText dbType) q).map Prod.snd =
        (List.range' 1 args.length).map (placeholderForDialect (.ofText dbType)) := by
      rw [placedTrimmed, List.map_map, hargs]
      exact placedFrom_tokens _ _ 0 _
    have hrange : List.range' 1 (args.length + 2) =
        List.range' 1 args.length ++ [args.length + 1, args.length + 2] := by
      rw [List.range'_1_concat, List.range'_1_concat, List.append_assoc,
        Nat.add_comm 1 (args.length + 1), Nat.add_comm 1 args.length]
      rfl
    rw [inserted, if_neg hlimit, List.map_append, htrimmed,
      length_applyPagination hd (by omega), hrange, List.map_append, ← hargs]
    rfl

/-- The bound template has its own placeholders and no other, and with a limit it ends in code. -/
def Clear (d : Dialect) (q : Text) (limit : Int) : Prop :=
  if limit ≤ 0 then natives d (boundText d q) = placed d q
  else
    endsInCode d (paginationBase (boundText d q)) = true ∧
      natives d (paginationBase (boundText d q) ++ [' ']) = placedTrimmed d q

instance (d : Dialect) (q : Text) (limit : Int) : Decidable (Clear d q limit) :=
  inferInstanceAs (Decidable (ite _ _ _))

/-- The placeholders of a statement are those of its arguments exactly if the bound template
is clear. -/
theorem counts_iff {dbType q : Text} (hd : Supported dbType) {params : Table Value} {sql : Text}
    {args : List Value}
    (hbind : bind q params (placeholderForDialect (.ofText dbType)) = some (.ok (sql, args)))
    (limit offset : Int) :
    Counts (.ofText dbType) q limit (applyPagination sql args dbType limit offset) ↔
      Clear (.ofText dbType) q limit := by
  have hus := lexes_bindLexemes q
  obtain ⟨hsql, hargs⟩ : sql = boundText (.ofText dbType) q ∧
      args.length = (paramNames (bindLexemes q)).length := by
    rw [← bindForms_other] at hus
    obtain ⟨ts, hts, hvalues, rfl, rfl⟩ := (bindDialect_eq_ok_iff params _).mp hbind
    obtain rfl := hts.unique (lexeme_consuming (bindForms_proper .other) true) hus
    exact ⟨rfl, by rw [← List.length_map some, filterMap_values hvalues, List.length_map]⟩
  have hown : Counts (.ofText dbType) q limit (applyPagination sql args dbType limit offset) ↔
      natives (.ofText dbType) (applyPagination sql args dbType limit offset).1 =
        inserted (.ofText dbType) q limit := by
    refine ⟨Counts.own, fun h => ⟨h, ?_⟩⟩
    rw [h]
    exact inserted_tokens hd hargs limit offset
  rw [hown, inserted, Clear]
  by_cases hlimit : limit ≤ 0
  · rw [if_pos hlimit, if_pos hlimit, applyPagination_none hlimit, hsql]
  · rw [if_neg hlimit, if_neg hlimit, applyPagination_text hd (by omega), hargs, hsql]
    exact natives_clause_iff hd _ _ _

end DDAG.Gateway
