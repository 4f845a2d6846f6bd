import DDAG.Gateway.ReadOnly
import DDAG.Connectors.Pagination

/-!
# The tail of a template

`ApplyPagination` puts its clause behind the bound template.  Whether a database
reads the clause as code depends on how the template ends: a line comment, or a
quote that is not closed, takes it in, and a semicolon before it ends the
statement without it.

Every clause starts with a blank and has nothing that closes a quoted region
(`Quiet`).  So the reading of a template up to the clause does not depend on the
clause, and can be tried with a single blank.  `limit_takes_effect_iff` says that
the clause takes effect exactly if the blank does, a condition on the template
and its dialect alone (`settles`).
-/

namespace DDAG.Gateway

open Models Machine
open Connectors

/-! ## Code positions -/

/-- A dollar quote of PostgreSQL opens here. -/
def opensDollar : Text → Bool
  | '$' :: rest =>
      let tag := rest.takeWhile isIdentPart
      tag.head?.all isIdentStart && (rest.drop tag.length).head? == some '$'
  | _ => false

/-- A quote that is not closed runs to the end of the text. -/
def Opening.ofQuote (opens : Bool) : Option Text → Opening
  | some after => .region after
  | none => if opens then .region [] else .no

/-- An Oracle quote may open with a capital letter. -/
def lowerQuote (s : Text) : Text := if s.head? = some 'Q' then 'q' :: s.tail else s

/-- The forms of a dialect, with quotes that are not closed. -/
def codeForms : Dialect → Forms
  | .postgres => fun s => Opening.ofQuote (opensDollar s) (pgDollarEnd s)
  | .oracle => fun s =>
      Opening.ofQuote (opensOracleQuote (lowerQuote s)) (oracleQuoteEnd (lowerQuote s))
  | d => nativeForms d

/-- How a database of a dialect reads a text. -/
def codeLexeme (d : Dialect) : Lexer Char Lexeme := lexeme (codeForms d) false

/-- What stands behind `before` starts at a code position, and no semicolon at a code
position stands in front of it. -/
def TakesEffect (d : Dialect) (before clause : Text) : Prop :=
  ∃ ts, LexesTo (codeLexeme d) (before ++ clause) ts clause ∧
    (∃ c rest, codeLexeme d clause = some (.rune c, rest)) ∧ ';' ∉ codeText ts

/-! ## Tails that close nothing -/

/-- The runes that close a region. -/
def closers : List Char := ['\'', '"', '`', ']', '*', '\n']

/-- A text behind a template that closes no region of it. -/
structure Quiet (t : Text) : Prop where
  blank : t.head? = some ' '
  noCloser : ∀ c ∈ closers, c ∉ t
  tags : ∀ tag : Text, (∀ c ∈ tag, isIdentPart c = true) → findTag ('$' :: (tag ++ ['$'])) t = none

/-- A loop on `u` with a quiet text behind it: it stops before that text, in the same
place whatever the text is, or it takes all of it. -/
def Splits (f : Text → Text) (u : Text) : Prop :=
  (∃ r : Text, r.length ≤ u.length ∧ ∀ t, Quiet t → f (u ++ t) = r ++ t) ∨
    ∀ t, Quiet t → f (u ++ t) = []

theorem Splits.of_eq {f : Text → Text} {u v : Text} (h : Splits f u) (hlen : u.length ≤ v.length)
    (heq : ∀ t, Quiet t → f (v ++ t) = f (u ++ t)) : Splits f v := by
  rcases h with ⟨r, hr, hstop⟩ | hrun
  · refine .inl ⟨r, by omega, fun t ht => ?_⟩
    rw [heq t ht, hstop t ht]
  · refine .inr fun t ht => ?_
    rw [heq t ht, hrun t ht]

theorem Quiet.exists_cons {t : Text} (h : Quiet t) : ∃ t', t = ' ' :: t' := by
  cases t with
  | nil => cases h.blank
  | cons c t' =>
      cases h.blank
      exact ⟨t', rfl⟩

theorem Quiet.not_mem {t : Text} (h : Quiet t) {c : Char} (hc : closers.contains c = true) : c ∉ t :=
  h.noCloser c (List.contains_iff_mem.mp hc)

section Loops

theorem skipDelimitedFrom_of_not_mem {quote : Char} {t : Text} (h : quote ∉ t) :
    skipDelimitedFrom quote t = [] := by
  fun_induction skipDelimitedFrom quote t with
  | case1 => rfl
  | case2 => rfl
  | case3 rest' ih => simp at h
  | case4 c' rest' hc => simp at h
  | case5 c rest hc ih => exact ih fun hmem => h (List.mem_cons_of_mem c hmem)

theorem splits_skipDelimitedFrom (quote : Char) (hq : closers.contains quote = true) (u : Text) :
    Splits (skipDelimitedFrom quote) u := by
  fun_induction skipDelimitedFrom quote u with
  | case1 => exact .inr fun t ht => skipDelimitedFrom_of_not_mem (ht.not_mem hq)
  | case2 =>
      refine .inl ⟨[], Nat.zero_le _, fun t ht => ?_⟩
      obtain ⟨t', rfl⟩ := ht.exists_cons
      have hne : ' ' ≠ quote := by
        rintro rfl
        exact ht.not_mem hq List.mem_cons_self
      simp [skipDelimitedFrom, hne]
  | case3 rest' ih => exact ih.of_eq (by simp; omega) fun t _ => by simp [skipDelimitedFrom]
  | case4 c' rest' hc =>
      exact .inl ⟨c' :: rest', by simp, fun t _ => by simp [skipDelimitedFrom, hc]⟩
  | case5 c rest hc ih =>
      refine ih.of_eq (by simp) fun t _ => ?_
      rw [List.cons_append, skipDelimitedFrom.eq_def _ (c :: (rest ++ t))]
      simp [hc]

theorem skipLiteral_of_not_mem {t : Text} (h : '\'' ∉ t) : skipLiteral t = [] := by
  fun_induction skipLiteral t with
  | case1 => rfl
  | case2 rest ih => simp at h
  | case3 rest hc => simp at h
  | case4 c rest h1 h2 ih => exact ih fun hmem => h (List.mem_cons_of_mem c hmem)

theorem splits_skipLiteral (u : Text) : Splits skipLiteral u := by
  fun_induction skipLiteral u with
  | case1 => exact .inr fun t ht => skipLiteral_of_not_mem (ht.not_mem (by decide))
  | case2 rest ih => exact ih.of_eq (by simp; omega) fun t _ => rfl
  | case3 rest h =>
      refine .inl ⟨rest, by simp, fun t ht => ?_⟩
      obtain ⟨t', rfl⟩ := ht.exists_cons
      rw [List.cons_append, skipLiteral]
      intro rest' heq
      cases rest with
      | nil => cases heq
      | cons c rest =>
          cases heq
          exact h _ rfl
  | case4 c rest h1 h2 ih =>
      refine ih.of_eq (by simp) fun t _ => ?_
      rw [List.cons_append, skipLiteral]
      · exact fun _ hc _ => h2 hc
      · exact h2

theorem skipBlock_of_not_mem {t : Text} (h : '*' ∉ t) : skipBlock t = [] := by
  fun_induction skipBlock t with
  | case1 => rfl
  | case2 rest => simp at h
  | case3 c rest hc ih => exact ih fun hmem => h (List.mem_cons_of_mem c hmem)

theorem splits_skipBlock (u : Text) : Splits skipBlock u := by
  fun_induction skipBlock u with
  | case1 => exact .inr fun t ht => skipBlock_of_not_mem (ht.not_mem (by decide))
  | case2 rest => exact .inl ⟨rest, by simp; omega, fun t _ => rfl⟩
  | case3 c rest h ih =>
      refine ih.of_eq (by simp) fun t ht => ?_
      obtain ⟨t', rfl⟩ := ht.exists_cons
      rw [List.cons_append, skipBlock]
      intro rest' hc heq
      cases rest with
      | nil => cases heq
      | cons c' rest =>
          cases heq
          exact h _ hc rfl

theorem splits_skipLine (u : Text) : Splits skipLine u := by
  induction u with
  | nil =>
      refine .inr fun t ht => ?_
      refine List.dropWhile_eq_nil_iff.mpr fun c hc => ?_
      have hne : c ≠ '\n' := fun h => ht.not_mem (by decide) (h ▸ hc)
      simpa using hne
  | cons c u ih =>
      by_cases hc : c = '\n'
      · exact .inl ⟨c :: u, Nat.le_refl _, fun t _ => by simp [skipLine, hc]⟩
      · refine ih.of_eq (by simp) fun t _ => ?_
        rw [List.cons_append, skipLine_cons hc]

/-- A closing tag has no blank, so it does not run into a quiet text. -/
theorem findTag_append_quiet {tag t : Text} (htag : ∀ c ∈ tag, isIdentPart c = true) (ht : Quiet t)
    (u : Text) :
    findTag ('$' :: (tag ++ ['$'])) (u ++ t) = (findTag ('$' :: (tag ++ ['$'])) u).map (· ++ t) := by
  refine findTag_append_of (ht.tags tag htag) (fun c s => ?_) u
  refine ⟨fun h => ?_, fun h => h.trans (List.prefix_append (c :: s) t)⟩
  obtain ⟨t', rfl⟩ := ht.exists_cons
  obtain ⟨v, hv⟩ := h
  have hblank : ' ' ∉ '$' :: (tag ++ ['$']) := by
    intro hmem
    rw [List.mem_cons, List.mem_append, List.mem_singleton] at hmem
    rcases hmem with h | h | h
    · cases h
    · exact absurd (htag ' ' h) (by decide)
    · cases h
  have hv' : '$' :: (tag ++ ['$']) ++ v = c :: s ++ ' ' :: t' := hv
  rcases List.append_eq_append_iff.mp hv' with ⟨a, ha, -⟩ | ⟨w, hw, hrest⟩
  · exact ⟨a, ha.symm⟩
  · cases w with
    | nil => exact ⟨[], by simpa using hw⟩
    | cons c' w =>
        cases hrest
        exact absurd (hw ▸ List.mem_append_right _ List.mem_cons_self) hblank

end Loops

/-! ## Lexemes before a quiet tail -/

/-- A lexeme of a text with a quiet tail: it ends before the tail, and is the same
whatever the tail is, or it takes the tail. -/
def ReadsUpTo (lx : Lexer Char Lexeme) (c : Char) (rest : Text) : Prop :=
  (∃ (x : Lexeme) (r : Text), r.length ≤ rest.length ∧
      ∀ t, Quiet t → lx (c :: (rest ++ t)) = some (x, r ++ t)) ∨
    ∀ t, Quiet t → ∃ x, lx (c :: (rest ++ t)) = some (x, [])

theorem upTo_append_append (s r t : Text) : upTo (s ++ t) (r ++ t) = upTo s r := by
  have hlen : (s ++ t).length - (r ++ t).length = s.length - r.length := by
    simp only [List.length_append]
    omega
  rw [upTo, hlen, List.take_append_of_le_length (Nat.sub_le _ _), upTo]

/-- A region that ends where a loop does. -/
theorem ReadsUpTo.of_splits {lx : Lexer Char Lexeme} {f : Text → Text} {c : Char} {rest u : Text}
    (hf : Splits f u) (hlen : u.length ≤ rest.length)
    (hlx : ∀ t, Quiet t → lx (c :: (rest ++ t)) = regionTo (c :: (rest ++ t)) (f (u ++ t))) :
    ReadsUpTo lx c rest := by
  rcases hf with ⟨r, hr, hstop⟩ | hrun
  · refine .inl ⟨.region (upTo (c :: rest) r), r, by omega, fun t ht => ?_⟩
    rw [hlx t ht, hstop t ht, regionTo, ← List.cons_append, upTo_append_append]
  · refine .inr fun t ht => ?_
    rw [hlx t ht, hrun t ht]
    exact ⟨_, rfl⟩

theorem head?_append_quiet {t : Text} (ht : Quiet t) {x : Char} (hx : x ≠ ' ') (rest : Text) :
    (rest ++ t).head? = some x ↔ rest.head? = some x := by
  cases rest with
  | cons c rest => exact Iff.rfl
  | nil =>
      rw [List.nil_append, ht.blank]
      constructor
      · intro h
        exact absurd (Option.some.inj h).symm hx
      · intro h
        cases h

section Code

variable {d : Dialect} {c : Char} {rest : Text}

theorem readsUpTo_of_no (h : ∀ t, Quiet t → codeForms d (c :: (rest ++ t)) = .no) :
    ReadsUpTo (codeLexeme d) c rest := by
  have hlx : ∀ t, Quiet t → codeLexeme d (c :: (rest ++ t)) = commonLexeme false c (rest ++ t) := by
    intro t ht
    simp only [codeLexeme, lexeme, h t ht]
  by_cases hdouble : c = '"'
  · refine .of_splits (splits_skipDelimitedFrom '"' (by decide) rest) (Nat.le_refl _)
      fun t ht => ?_
    rw [hlx t ht, commonLexeme, if_pos hdouble]
    rfl
  by_cases hsingle : c = '\''
  · refine .of_splits (splits_skipLiteral rest) (Nat.le_refl _) fun t ht => ?_
    rw [hlx t ht, commonLexeme, if_neg hdouble, if_pos hsingle]
  by_cases hline : c = '-' ∧ rest.head? = some '-'
  · refine .of_splits (splits_skipLine rest) (Nat.le_refl _) fun t ht => ?_
    have hhead := (head?_append_quiet ht (x := '-') (by decide) rest).mpr hline.2
    rw [hlx t ht, commonLexeme, if_neg hdouble, if_neg hsingle, if_pos ⟨hline.1, hhead⟩,
      skipLine_cons (by rw [hline.1]; decide)]
  by_cases hblock : c = '/' ∧ rest.head? = some '*'
  · obtain ⟨hc, hhead⟩ := hblock
    cases rest with
    | nil => cases hhead
    | cons c' rest' =>
        cases hhead
        refine .of_splits (splits_skipBlock rest') (by simp) fun t ht => ?_
        rw [hlx t ht, commonLexeme, if_neg hdouble, if_neg hsingle, if_neg (by simp [hc]),
          if_pos ⟨hc, rfl⟩]
        rfl
  refine .inl ⟨.rune c, rest, Nat.le_refl _, fun t ht => ?_⟩
  rw [← head?_append_quiet ht (x := '-') (by decide)] at hline
  rw [← head?_append_quiet ht (x := '*') (by decide)] at hblock
  rw [hlx t ht, commonLexeme, if_neg hdouble, if_neg hsingle, if_neg hline, if_neg hblock]
  simp

theorem readsUpTo_of_region {f : Text → Text} {u : Text} (hf : Splits f u)
    (hlen : u.length ≤ rest.length)
    (h : ∀ t, Quiet t → codeForms d (c :: (rest ++ t)) = .region (f (u ++ t))) :
    ReadsUpTo (codeLexeme d) c rest := by
  refine .of_splits hf hlen fun t ht => ?_
  simp only [codeLexeme, lexeme, h t ht]

/-- A quote of the dialect: its end is found before the tail or not, and then the quote
takes the tail. -/
theorem readsUpTo_of_quote (opens : Bool) (o : Option Text)
    (hlen : ∀ r, o = some r → r.length ≤ rest.length)
    (h : ∀ t, Quiet t → codeForms d (c :: (rest ++ t)) = Opening.ofQuote opens (o.map (· ++ t))) :
    ReadsUpTo (codeLexeme d) c rest := by
  cases o with
  | some r =>
      refine readsUpTo_of_region (f := id) (u := r) ?_ (hlen r rfl) h
      exact .inl ⟨r, Nat.le_refl _, fun _ _ => rfl⟩
  | none =>
      cases opens with
      | false => exact readsUpTo_of_no h
      | true =>
          refine readsUpTo_of_region (f := fun _ => []) (u := []) ?_ (Nat.zero_le _) h
          exact .inr fun _ _ => rfl

end Code

theorem opensOracleQuote_of_ne {c c₁ : Char} {rest : Text} (h : ¬(c = 'q' ∧ c₁ = '\'')) :
    opensOracleQuote (c :: c₁ :: rest) = false := by
  unfold opensOracleQuote
  split
  next heq =>
    cases heq
    exact absurd ⟨rfl, rfl⟩ h
  next _ => rfl

theorem oracleQuoteEnd_of_ne {c c₁ : Char} {rest : Text} (h : ¬(c = 'q' ∧ c₁ = '\'')) :
    oracleQuoteEnd (c :: c₁ :: rest) = none := by
  unfold oracleQuoteEnd
  split
  next heq =>
    cases heq
    exact absurd ⟨rfl, rfl⟩ h
  next _ => rfl

section Quotes

variable {t : Text} (ht : Quiet t) (c : Char) (rest : Text)

include ht

theorem takeWhile_append_quiet {p : Char → Bool} (hp : p ' ' = false) :
    (rest ++ t).takeWhile p = rest.takeWhile p := by
  obtain ⟨t', rfl⟩ := ht.exists_cons
  rw [List.takeWhile_append]
  split
  next hall =>
    have hrest : rest.takeWhile p = rest := (List.takeWhile_prefix p).eq_of_length hall
    rw [hrest, List.takeWhile_cons_of_neg (by simp [hp]), List.append_nil]
  next _ => rfl

omit ht in
/-- What stands behind the tag of a dollar quote. -/
theorem drop_tag_append :
    (rest ++ t).drop (rest.takeWhile isIdentPart).length =
      rest.drop (rest.takeWhile isIdentPart).length ++ t :=
  List.drop_append_of_le_length (List.takeWhile_prefix _).length_le

theorem opensDollar_append : opensDollar (c :: (rest ++ t)) = opensDollar (c :: rest) := by
  by_cases hc : c = '$'
  · subst hc
    simp only [opensDollar, takeWhile_append_quiet ht rest (show isIdentPart ' ' = false by decide),
      drop_tag_append rest]
    congr 1
    rw [Bool.eq_iff_iff, beq_iff_eq, beq_iff_eq]
    exact head?_append_quiet ht (by decide) _
  · simp [opensDollar, hc]

theorem pgDollarEnd_append :
    pgDollarEnd (c :: (rest ++ t)) = (pgDollarEnd (c :: rest)).map (· ++ t) := by
  by_cases hc : c = '$'
  · subst hc
    simp only [pgDollarEnd, takeWhile_append_quiet ht rest (show isIdentPart ' ' = false by decide),
      drop_tag_append rest, head?_append_quiet ht (show '$' ≠ ' ' by decide)]
    split
    next hopens =>
      have hlt : (rest.takeWhile isIdentPart).length + 1 ≤ rest.length := by
        by_contra hge
        rw [List.drop_eq_nil_of_le (by omega)] at hopens
        cases hopens.2
      rw [List.drop_append_of_le_length hlt]
      exact findTag_append_quiet (fun c hc => List.mem_takeWhile_imp hc) ht _
    next _ => rfl
  · simp [pgDollarEnd, hc]

/-- A quote may open with the blank of the tail for its delimiter. -/
theorem opensOracleQuote_append :
    opensOracleQuote (c :: (rest ++ t)) = opensOracleQuote (c :: (rest ++ [' '])) := by
  obtain ⟨t', rfl⟩ := ht.exists_cons
  cases rest with
  | nil =>
      have hne : ¬(c = 'q' ∧ ' ' = '\'') := fun h => absurd h.2 (by decide)
      exact (opensOracleQuote_of_ne hne).trans (opensOracleQuote_of_ne hne).symm
  | cons c₁ rest =>
      by_cases h : c = 'q' ∧ c₁ = '\''
      · obtain ⟨rfl, rfl⟩ := h
        cases rest <;> rfl
      · exact (opensOracleQuote_of_ne h).trans (opensOracleQuote_of_ne h).symm

theorem oracleQuoteEnd_append_quiet :
    oracleQuoteEnd (c :: (rest ++ t)) = (oracleQuoteEnd (c :: rest)).map (· ++ t) := by
  have hquote : '\'' ∉ t := ht.not_mem (by decide)
  cases rest with
  | nil =>
      obtain ⟨t', rfl⟩ := ht.exists_cons
      refine (oracleQuoteEnd_of_ne fun h => absurd h.2 (by decide)).trans ?_
      simp [oracleQuoteEnd]
  | cons c₁ rest =>
      by_cases h : c = 'q' ∧ c₁ = '\''
      · obtain ⟨rfl, rfl⟩ := h
        cases rest with
        | nil =>
            -- no quote closes what the blank opens
            obtain ⟨t', rfl⟩ := ht.exists_cons
            exact findClose_append (fun hmem => hquote (List.mem_cons_of_mem _ hmem)) _ []
        | cons r rest => exact findClose_append hquote _ rest
      · rw [oracleQuoteEnd_of_ne h]
        exact oracleQuoteEnd_of_ne h

end Quotes

/-- A text with a quiet tail is read alike up to the tail, whatever the tail is. -/
theorem code_readsUpTo (d : Dialect) (c : Char) (rest : Text) : ReadsUpTo (codeLexeme d) c rest := by
  cases d with
  | postgres =>
      refine readsUpTo_of_quote (opensDollar (c :: rest)) (pgDollarEnd (c :: rest))
        (fun r hr => (pgDollarEnd_suffix hr).length_le) fun t ht => ?_
      simp only [codeForms, opensDollar_append ht, pgDollarEnd_append ht]
  | mysql =>
      by_cases hback : c = '`'
      · refine readsUpTo_of_region (splits_skipDelimitedFrom '`' (by decide) rest)
          (Nat.le_refl _) fun t _ => ?_
        simp [codeForms, nativeForms, hback, skipDelimited]
      by_cases hhash : c = '#'
      · refine readsUpTo_of_region (splits_skipLine rest) (Nat.le_refl _) fun t _ => ?_
        simp [codeForms, nativeForms, hhash, skipLine_cons]
      · refine readsUpTo_of_no fun t _ => ?_
        simp [codeForms, nativeForms, hback, hhash]
  | sqlserver =>
      by_cases hbracket : c = '['
      · refine readsUpTo_of_region (splits_skipDelimitedFrom ']' (by decide) rest)
          (Nat.le_refl _) fun t _ => ?_
        simp [codeForms, nativeForms, hbracket, skipBracketIdentifier, skipDelimited]
      · refine readsUpTo_of_no fun t _ => ?_
        simp [codeForms, nativeForms, hbracket]
  | oracle =>
      have hlower : ∀ s, lowerQuote (c :: s) = (if c = 'Q' then 'q' else c) :: s := by
        intro s
        by_cases hc : c = 'Q' <;> simp [lowerQuote, hc]
      generalize (if c = 'Q' then 'q' else c) = c' at hlower
      refine readsUpTo_of_quote (opensOracleQuote (c' :: (rest ++ [' '])))
        (oracleQuoteEnd (c' :: rest)) (fun r hr => (oracleQuoteEnd_suffix hr).length_le)
        fun t ht => ?_
      simp only [codeForms, hlower, opensOracleQuote_append ht, oracleQuoteEnd_append_quiet ht]
  | other => exact readsUpTo_of_no fun t _ => rfl

/-! ## Reading up to a quiet tail -/

theorem Opening.ofQuote_region {opens : Bool} {o : Option Text} {after : Text}
    (h : Opening.ofQuote opens o = .region after) : o = some after ∨ after = [] := by
  cases o with
  | some a =>
      cases h
      exact .inl rfl
  | none =>
      cases opens with
      | false => cases h
      | true =>
          cases h
          exact .inr rfl

theorem codeForms_proper (d : Dialect) : Forms.Proper (codeForms d) := by
  intro c rest after h
  cases d with
  | postgres =>
      rcases Opening.ofQuote_region h with hend | rfl
      · exact pgDollarEnd_suffix hend
      · exact List.nil_suffix
  | oracle =>
      rcases Opening.ofQuote_region h with hend | rfl
      · unfold lowerQuote at hend
        split at hend
        next _ => exact oracleQuoteEnd_suffix hend
        next _ => exact oracleQuoteEnd_suffix hend
      · exact List.nil_suffix
  | mysql => exact nativeForms_proper .mysql c rest after h
  | sqlserver => exact nativeForms_proper .sqlserver c rest after h
  | other => exact nativeForms_proper .other c rest after h

theorem codeLexeme_consuming (d : Dialect) : Consuming (codeLexeme d) :=
  lexeme_consuming (codeForms_proper d) false

theorem codeLexeme_blank (d : Dialect) (rest : Text) :
    codeLexeme d (' ' :: rest) = some (.rune ' ', rest) := by
  have hno : codeForms d (' ' :: rest) = .no := by
    cases d <;>
      simp [codeForms, nativeForms, plainForms, opensDollar, pgDollarEnd, lowerQuote,
        opensOracleQuote, oracleQuoteEnd, Opening.ofQuote]
  simp [codeLexeme, lexeme, hno, commonLexeme]

section Tail

variable {d : Dialect} {before t t' : Text}

/-- A quiet tail takes effect behind a text or does not, whatever the tail is. -/
theorem TakesEffect.of_quiet (ht : Quiet t) (ht' : Quiet t') (h : TakesEffect d before t) :
    TakesEffect d before t' := by
  obtain ⟨ts, hts, -, hsemi⟩ := h
  have hne : t ≠ [] := by
    rintro rfl
    cases ht.blank
  refine ⟨ts, hts.change_tail (codeLexeme_consuming d) hne fun c s => ?_, ?_, hsemi⟩
  · rcases code_readsUpTo d c s with ⟨x, r, hr, hread⟩ | htake
    · exact .inl ⟨x, r, hr, hread t ht, hread t' ht'⟩
    · exact .inr (htake t ht)
  · obtain ⟨w, rfl⟩ := ht'.exists_cons
    exact ⟨' ', w, codeLexeme_blank d w⟩

theorem quiet_blank : Quiet [' '] where
  blank := rfl
  noCloser c hc hmem := by
    rw [List.mem_singleton.mp hmem] at hc
    exact absurd hc (by decide)
  tags tag _ := findTag_of_not_mem (by decide)

/-! ## The blank behind a text -/

/-- The text ends at a code position, with no semicolon at a code position in it. -/
def settled (d : Dialect) (before : Text) : Bool :=
  (lexAll (codeLexeme d) (before ++ [' '])).any fun ts =>
    ts.getLast? = some (.rune ' ') ∧ ';' ∉ codeText ts

theorem takesEffect_blank_iff : TakesEffect d before [' '] ↔ settled d before = true := by
  have hsome : ∀ ts, lexAll (codeLexeme d) (before ++ [' ']) = some ts ↔
      Lexes (codeLexeme d) (before ++ [' ']) ts :=
    fun ts => lexAll_eq_some_iff (codeLexeme_consuming d)
  simp only [settled, Option.any_eq_true, hsome, decide_eq_true_eq]
  constructor
  · rintro ⟨ts, hts, -, hsemi⟩
    refine ⟨ts ++ [.rune ' '], hts.trans (.single (codeLexeme_blank d [])), by simp, ?_⟩
    rw [codeText_append, List.mem_append, not_or]
    exact ⟨hsemi, by decide⟩
  · rintro ⟨us, hus, hlast, hsemi⟩
    obtain ⟨ts, rfl⟩ : ∃ ts, us = ts ++ [.rune ' '] := List.getLast?_eq_some_iff.mp hlast
    obtain ⟨m, hts, hm⟩ := LexesTo.of_append hus
    have htext := lexesTo_text (codeForms_proper d) hm
    cases htext
    rw [codeText_append, List.mem_append, not_or] at hsemi
    exact ⟨ts, hts, ⟨' ', [], codeLexeme_blank d []⟩, hsemi.1⟩

end Tail

/-! ## The clauses are quiet -/

def closesNothing (c : Char) : Bool := !closers.contains c

theorem Quiet.noCloser_of_all {t : Text} (hall : t.all closesNothing = true) : ∀ c ∈ closers, c ∉ t := by
  intro c hc hmem
  have hno := List.all_eq_true.mp hall c hmem
  simp [closesNothing, hc] at hno

/-- Neither closes something nor stands in a tag. -/
def isPlain (c : Char) : Bool := closesNothing c && c != '$'

theorem Quiet.of_plain {t : Text} (hblank : t.head? = some ' ') (hplain : t.all isPlain = true) :
    Quiet t where
  blank := hblank
  noCloser := by
    refine Quiet.noCloser_of_all (List.all_eq_true.mpr fun c hc => ?_)
    exact (Bool.and_eq_true_iff.mp (List.all_eq_true.mp hplain c hc)).1
  tags _ _ := by
    refine findTag_of_not_mem fun hmem => ?_
    simpa [isPlain] using List.all_eq_true.mp hplain '$' hmem

section Digits

variable {c : Char} (h : c.isDigit = true)

include h

theorem ne_of_isDigit {x : Char} (hx : x.isDigit = false) : c ≠ x := by
  rintro rfl
  rw [h] at hx
  cases hx

theorem closesNothing_of_isDigit : closesNothing c = true := by
  have hmem : c ∉ closers := by
    intro hmem
    have hdigit : closers.all (fun x => !x.isDigit) = true := by decide
    simpa [h] using List.all_eq_true.mp hdigit c hmem
  simp [closesNothing, hmem]

theorem isPlain_of_isDigit : isPlain c = true := by
  rw [isPlain, closesNothing_of_isDigit h, Bool.true_and, bne_iff_ne]
  exact ne_of_isDigit h rfl

theorem isIdentPart_of_isDigit : isIdentPart c = true := by
  simp only [Char.isDigit, ge_iff_le, Bool.and_eq_true, decide_eq_true_eq] at h
  simp only [isIdentPart, Bool.or_eq_true, Bool.and_eq_true, decide_eq_true_eq, Char.le_def]
  exact .inr h

end Digits

theorem decimal_all {p : Char → Bool} (hp : ∀ c : Char, c.isDigit = true → p c = true) (n : Nat) :
    (Strings.decimal n).all p = true :=
  List.all_eq_true.mpr fun c hc => hp c (Strings.isDigit_decimal hc)

/-- A dollar, digits and a blank or nothing are no tag. -/
theorem not_tag_prefix {tag digits v : Text} (htag : ∀ c ∈ tag, isIdentPart c = true)
    (hdigits : ∀ c ∈ digits, isIdentPart c = true) (hv : ∀ c ∈ v.head?, c = ' ') :
    ¬tag ++ ['$'] <+: digits ++ v := by
  induction digits generalizing tag with
  | nil =>
      intro h
      cases v with
      | nil => simp at h
      | cons c v =>
          cases hv c rfl
          cases tag with
          | nil => exact absurd (List.cons_prefix_cons.mp h).1 (by decide)
          | cons x tag =>
              cases (List.cons_prefix_cons.mp h).1
              exact absurd (htag ' ' List.mem_cons_self) (by decide)
  | cons c digits ih =>
      intro h
      cases tag with
      | nil =>
          cases (List.cons_prefix_cons.mp h).1
          exact absurd (hdigits '$' List.mem_cons_self) (by decide)
      | cons x tag =>
          exact ih (fun y hy => htag y (List.mem_cons_of_mem _ hy))
            (fun y hy => hdigits y (List.mem_cons_of_mem _ hy)) (List.cons_prefix_cons.mp h).2

theorem findTag_skip {x : Char} {tag w : Text} (h : x ∉ w) (v : Text) :
    findTag (x :: tag) (w ++ v) = findTag (x :: tag) v := by
  induction w with
  | nil => rfl
  | cons c w ih =>
      rw [List.mem_cons, not_or] at h
      have hp : ¬(x :: tag) <+: c :: (w ++ v) := fun hp => h.1 (List.cons_prefix_cons.mp hp).1
      rw [List.cons_append, findTag, if_neg (fun hb => hp (List.isPrefixOf_iff_prefix.mp hb))]
      exact ih h.2

/-- A placeholder of PostgreSQL, with a blank or nothing behind it, is skipped. -/
theorem findTag_placeholder {tag v : Text} (htag : ∀ c ∈ tag, isIdentPart c = true) (n : Nat)
    (hv : ∀ c ∈ v.head?, c = ' ') :
    findTag ('$' :: (tag ++ ['$'])) ('$' :: (Strings.decimal n ++ v)) =
      findTag ('$' :: (tag ++ ['$'])) v := by
  have hident : ∀ c ∈ Strings.decimal n, isIdentPart c = true :=
    fun c hc => isIdentPart_of_isDigit (Strings.isDigit_decimal hc)
  have hdollar : '$' ∉ Strings.decimal n := fun hmem => absurd (hident '$' hmem) (by decide)
  have hp : ¬ '$' :: (tag ++ ['$']) <+: '$' :: (Strings.decimal n ++ v) :=
    fun h => not_tag_prefix htag hident hv (List.cons_prefix_cons.mp h).2
  rw [findTag, if_neg (fun hb => hp (List.isPrefixOf_iff_prefix.mp hb))]
  exact findTag_skip hdollar v

theorem isPlain_addedOrder (base : Text) : (addedOrder base).all isPlain = true := by
  unfold addedOrder
  split
  next _ => rfl
  next _ => decide +kernel

theorem quiet_paginationClause {d : Dialect} (hd : d ≠ .other) (base : Text) (n : Nat) :
    Quiet (paginationClause d base n) := by
  have hdecimal := decimal_all fun _ => isPlain_of_isDigit
  cases d with
  | postgres =>
      show Quiet (" LIMIT $".toList ++ Strings.decimal (n + 1) ++
        (" OFFSET $".toList ++ Strings.decimal (n + 2)))
      refine { blank := by simp, noCloser := Quiet.noCloser_of_all ?_, tags := fun tag htag => ?_ }
      · simp only [List.all_append, decimal_all fun _ => closesNothing_of_isDigit, Bool.and_true]
        decide +kernel
      · have hfirst : " LIMIT $".toList ++ Strings.decimal (n + 1) ++
            (" OFFSET $".toList ++ Strings.decimal (n + 2)) =
            " LIMIT ".toList ++ '$' :: (Strings.decimal (n + 1) ++
              (" OFFSET ".toList ++ '$' :: (Strings.decimal (n + 2) ++ []))) := by simp
        rw [hfirst, findTag_skip (by decide +kernel), findTag_placeholder htag _ (by simp),
          findTag_skip (by decide +kernel), findTag_placeholder htag _ (by simp)]
        rfl
  | mysql =>
      show Quiet " LIMIT ?, ?".toList
      exact .of_plain (by simp) (by decide +kernel)
  | sqlserver =>
      show Quiet (addedOrder base ++ (" OFFSET @p".toList ++ Strings.decimal (n + 1) ++
        (" ROWS FETCH NEXT @p".toList ++ Strings.decimal (n + 2) ++ " ROWS ONLY".toList)))
      refine .of_plain ?_ ?_
      · unfold addedOrder
        split <;> simp
      · simp only [List.all_append, isPlain_addedOrder, hdecimal, Bool.and_true, Bool.true_and]
        decide +kernel
  | oracle =>
      show Quiet (" OFFSET :".toList ++ Strings.decimal (n + 1) ++
        (" ROWS FETCH NEXT :".toList ++ Strings.decimal (n + 2) ++ " ROWS ONLY".toList))
      refine .of_plain (by simp) ?_
      simp only [List.all_append, hdecimal, Bool.and_true]
      decide +kernel
  | other => exact absurd rfl hd

/-! ## Templates whose limit takes effect -/

/-- The statement made of a bound template has its clause at a code position, with no
semicolon at a code position before it. -/
def LimitTakesEffect (dbType sql : Text) (args : List Value) (limit offset : Int) : Prop :=
  ∃ clause, (applyPagination sql args dbType limit offset).1 = paginationBase sql ++ clause ∧
    TakesEffect (.ofText dbType) (paginationBase sql) clause

/-- What the binder makes of the template, whatever the parameters are, is settled without
its trailing semicolon. -/
def settles (d : Dialect) (q : Text) : Bool :=
  (lexAll (lexeme plainForms true) q).any fun us =>
    settled d (paginationBase (sqlText (placeholderForDialect d) 0 us))

theorem limitTakesEffect_iff {dbType sql : Text} (hd : Supported dbType) {args : List Value}
    {limit : Int} (hlimit : 1 ≤ limit) (offset : Int) :
    LimitTakesEffect dbType sql args limit offset ↔ settled (.ofText dbType) (paginationBase sql) = true := by
  have hquiet := quiet_paginationClause hd (paginationBase sql) args.length
  rw [← takesEffect_blank_iff]
  constructor
  · rintro ⟨clause, hclause, heffect⟩
    rw [applyPagination_text hd hlimit, List.append_cancel_left_eq] at hclause
    subst hclause
    exact heffect.of_quiet hquiet quiet_blank
  · intro h
    exact ⟨_, applyPagination_text hd hlimit, h.of_quiet quiet_blank hquiet⟩

/-- For every API and every parameters that `Bind` succeeds on, every limit of at least one
and every offset: the clause of the statement takes effect exactly if the template settles
in its dialect. -/
theorem limit_takes_effect_iff (api : APIDefinition) (hd : Supported api.connectorType)
    {params : Table Value} {sql : Text} {args : List Value}
    (hbind : bind api.queryTemplate params (placeholderForDialect api.dialect) = some (.ok (sql, args)))
    {limit : Int} (hlimit : 1 ≤ limit) (offset : Int) :
    LimitTakesEffect api.connectorType sql args limit offset ↔
      settles api.dialect api.queryTemplate = true := by
  obtain ⟨us, hus⟩ := exists_lexes_plain api.queryTemplate
  have hsql : sql = sqlText (placeholderForDialect api.dialect) 0 us := by
    rw [bind_eq params _ hus, bindingOf] at hbind
    split at hbind
    next _ => cases hbind
    next _ =>
      cases hbind
      rfl
  have hall := (lexAll_eq_some_iff (lexeme_consuming plainForms_proper true)).mpr hus
  rw [limitTakesEffect_iff hd hlimit, settles, hall, Option.any_some, ← hsql]
  rfl

def pagedAPI (template : String) : APIDefinition :=
  { connectorType := "postgres".toList, defaultLimit := 1, queryTemplate := template.toList }

/-- One trailing semicolon is removed. -/
theorem limit_after_semicolon :
    LimitTakesEffect "postgres".toList "SELECT a FROM t WHERE b = $1 ;".toList [.int 7] 10 0 := by
  have hbind : bind (pagedAPI "SELECT a FROM t WHERE b = :b ;").queryTemplate
      (fun _ => some (Value.int 7)) (placeholderForDialect .postgres) =
        some (.ok ("SELECT a FROM t WHERE b = $1 ;".toList, [Value.int 7])) := by
    decide +kernel
  exact (limit_takes_effect_iff (pagedAPI "SELECT a FROM t WHERE b = :b ;") (by decide +kernel)
    hbind (by decide) 0).mpr (by decide +kernel)

/-- A published template without parameters whose limit never takes effect. -/
structure Swallows (q : String) : Prop where
  published : (validateForPublish (fun _ => none) id (pagedAPI q) []).run = some (.ok ())
  noBuilder : queryBuilderFromAPI (pagedAPI q) = .ok none
  bound : bind q.toList (fun _ => none) (placeholderForDialect .postgres) =
    some (.ok (q.toList, ([] : List Value)))
  swallowed : ∀ limit offset, 1 ≤ limit →
    ¬LimitTakesEffect "postgres".toList q.toList [] limit offset

theorem Swallows.of_unsettled {q : String}
    (hpublished : (validateForPublish (fun _ => none) id (pagedAPI q) []).run = some (.ok ()))
    (hbound : bind q.toList (fun _ => none) (placeholderForDialect .postgres) =
      some (.ok (q.toList, ([] : List Value))))
    (hsettled : settled .postgres (paginationBase q.toList) = false) : Swallows q where
  published := hpublished
  noBuilder := rfl
  bound := hbound
  swallowed limit offset hlimit heffect := by
    have htrue := (limitTakesEffect_iff (by decide +kernel) hlimit offset).mp heffect
    exact absurd (htrue.symm.trans hsettled) (by decide)

/-- Templates that end in a comment, in two semicolons and in an open quote: the clause is
in the comment, behind a semicolon and in the quote. -/
theorem limit_swallowed :
    Swallows "SELECT 1 -- c" ∧ Swallows "SELECT 1;;" ∧ Swallows "SELECT 'a" :=
  ⟨.of_unsettled (by decide +kernel) (by decide +kernel) (by decide +kernel),
    .of_unsettled (by decide +kernel) (by decide +kernel) (by decide +kernel),
    .of_unsettled (by decide +kernel) (by decide +kernel) (by decide +kernel)⟩

end DDAG.Gateway
