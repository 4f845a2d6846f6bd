import DDAG.Gateway.Tails

/-!
# Words and native placeholders

The placeholders a database counts are the words `$k`, `?`, `@pk` or `:k` at the code positions of
a statement.  A *word* is an identifier or a placeholder of the dialect, read as far as it
goes: in PostgreSQL `a$1` is an identifier, and in SQL Server `@p1x` is another variable.  Every
word is given with the text before it, which says where it stands.

`words_append_break` says that a blank or a region ends a word, `nativesFrom_placeholder` that
what the binder and the paginator insert is a native placeholder where no word runs into it or
on from it, and `reads_or_takes` how a text is read in front of a clause.
-/

namespace DDAG.Gateway

open Models Machine
open Connectors

/-! ## Words -/

/-- The rune a native placeholder starts with. -/
def sigil : Dialect → Char
  | .postgres => '$'
  | .sqlserver => '@'
  | .oracle => ':'
  | .mysql | .other => '?'

/-- A rune outside ASCII, which the databases take for a letter. -/
def isWide (c : Char) : Bool := 128 ≤ c.toNat

/-- A word starts with the rune.  In MySQL and Oracle no identifier has a sigil, so only
placeholders are words. -/
def startsWord : Dialect → Char → Bool
  | .postgres, c => c = '$' || isIdentStart c || isWide c
  | .sqlserver, c => c = '@' || c = '#' || isIdentStart c || isWide c
  | .oracle, c => c = ':'
  | .mysql, c | .other, c => c = '?'

/-- The word goes on with the rune. -/
def extendsWord : Dialect → Text → Char → Bool
  | .postgres, w, c =>
      if w.head? = some '$' then c.isDigit else c = '$' || isIdentPart c || isWide c
  | .sqlserver, _, c => c = '@' || c = '#' || c = '$' || isIdentPart c || isWide c
  | .oracle, _, c => c.isDigit
  | .mysql, _, _ | .other, _, _ => false

def isNumeral (ds : Text) : Bool := ds ≠ [] && ds.all Char.isDigit

/-- The word is a placeholder of the dialect. -/
def isNative (d : Dialect) (w : Text) : Bool :=
  match d with
  | .postgres => w.head? = some '$' && isNumeral w.tail
  | .sqlserver =>
      w.head? = some '@' && (w.tail.head? = some 'p' || w.tail.head? = some 'P') &&
        isNumeral w.tail.tail
  | .oracle => w.head? = some ':' && isNumeral w.tail
  | .mysql | .other => w = ['?']

/-- The words of a list of lexemes behind the text `done`, each with the text before it.  A word
that has begun is in `word`. -/
def words (d : Dialect) : Text → Option (Text × Text) → List Lexeme → List (Text × Text)
  | _, word, [] => word.toList
  | done, word, .rune c :: ts =>
      if word.any fun p => extendsWord d p.2 c then
        words d (done ++ [c]) (word.map fun p => (p.1, p.2 ++ [c])) ts
      else
        word.toList ++
          words d (done ++ [c]) (if startsWord d c then some (done, [c]) else none) ts
  | done, word, t :: ts => word.toList ++ words d (done ++ t.text) none ts

/-- The native placeholders at the code positions of a text. -/
def natives (d : Dialect) (s : Text) : List (Text × Text) :=
  (words d [] none ((lexAll (codeLexeme d) s).getD [])).filter fun p => isNative d p.2

theorem natives_eq {d : Dialect} {s : Text} {ts : List Lexeme} (h : Lexes (codeLexeme d) s ts) :
    natives d s = (words d [] none ts).filter fun p => isNative d p.2 := by
  rw [natives, (lexAll_eq_some_iff (codeLexeme_consuming d)).mpr h, Option.getD_some]

/-! ## Where words end -/

section Words

variable {d : Dialect}

theorem words_cons_region (done : Text) (word : Option (Text × Text)) {t : Lexeme}
    (ht : t.rune? = none) (ts : List Lexeme) :
    words d done word (t :: ts) = word.toList ++ words d (done ++ t.text) none ts := by
  cases t with
  | rune c => cases ht
  | region text => rfl
  | cast => rfl
  | param name => rfl

theorem words_extend (done : Text) {b w : Text} {c : Char} (h : extendsWord d w c = true)
    (ts : List Lexeme) :
    words d done (some (b, w)) (.rune c :: ts) = words d (done ++ [c]) (some (b, w ++ [c])) ts := by
  rw [words, Option.any_some, if_pos h]
  rfl

theorem words_start (done : Text) {word : Option (Text × Text)} {c : Char}
    (h : word.any (fun p => extendsWord d p.2 c) = false) (ts : List Lexeme) :
    words d done word (.rune c :: ts) = word.toList ++
      words d (done ++ [c]) (if startsWord d c then some (done, [c]) else none) ts := by
  rw [words, h]
  rfl

theorem extendsWord_blank (w : Text) : extendsWord d w ' ' = false := by
  cases d <;> simp [extendsWord, isIdentPart, isIdentStart, isWide]

theorem words_blank (done : Text) (word : Option (Text × Text)) (ts : List Lexeme) :
    words d done word (.rune ' ' :: ts) = word.toList ++ words d (done ++ [' ']) none ts := by
  have hstarts : startsWord d ' ' = false := by cases d <;> rfl
  rw [words_start done (by cases word <;> simp [extendsWord_blank]), hstarts]
  rfl

/-- The lexeme belongs to no word. -/
def Breaks (d : Dialect) (x : Lexeme) : Prop :=
  ∀ done word ts, words d done word (x :: ts) = word.toList ++ words d (done ++ x.text) none ts

theorem breaks_blank : Breaks d (.rune ' ') := words_blank

theorem breaks_region {x : Lexeme} (hx : x.rune? = none) : Breaks d x :=
  fun done word ts => words_cons_region done word hx ts

/-- What stands behind a break has words of its own. -/
theorem words_append_break {x : Lexeme} (hx : Breaks d x) (done : Text)
    (word : Option (Text × Text)) (ts us : List Lexeme) :
    words d done word (ts ++ x :: us) =
      words d done word ts ++ words d (done ++ textOf ts ++ x.text) none us := by
  induction ts generalizing done word with
  | nil => rw [List.nil_append, hx, words, textOf, List.flatMap_nil, List.append_nil]
  | cons t ts ih =>
      have htext : done ++ textOf (t :: ts) = done ++ t.text ++ textOf ts := by
        rw [textOf, List.flatMap_cons, List.append_assoc]
        rfl
      cases t using Lexeme.cases_rune with
      | dropped t hr =>
          rw [List.cons_append, words_cons_region done word hr, words_cons_region done word hr, ih, htext]
          exact (List.append_assoc _ _ _).symm
      | rune c =>
          rw [List.cons_append, words, words, htext]
          split
          next _ => exact ih _ _
          next _ =>
            rw [ih]
            exact (List.append_assoc _ _ _).symm

/-- A property that words keep when they go on holds of every word, if it holds of the word that
had begun and of the words that start. -/
theorem words_forall {P : Text × Text → Prop} (hextend : ∀ b w c, P (b, w) → P (b, w ++ [c]))
    {done : Text} {word : Option (Text × Text)} {ts : List Lexeme} (hword : ∀ p ∈ word, P p)
    (hstart : ∀ front c back, ts = front ++ .rune c :: back → P (done ++ textOf front, [c])) :
    ∀ p ∈ words d done word ts, P p := by
  induction ts generalizing done word with
  | nil =>
      intro p hp
      exact hword p (Option.mem_toList.mp hp)
  | cons t ts ih =>
      have hlater : ∀ front c back, ts = front ++ .rune c :: back →
          P (done ++ t.text ++ textOf front, [c]) := by
        intro front c back heq
        have hp := hstart (t :: front) c back (by rw [heq]; rfl)
        rwa [textOf, List.flatMap_cons, ← List.append_assoc] at hp
      intro p hp
      cases t using Lexeme.cases_rune with
      | dropped t hr =>
          rw [words_cons_region done word hr, List.mem_append] at hp
          rcases hp with hp | hp
          · exact hword p (Option.mem_toList.mp hp)
          · exact ih (fun q hq => absurd hq (Option.not_mem_none q)) hlater p hp
      | rune c =>
          rw [words] at hp
          split at hp
          next _ =>
            refine ih (fun q hq => ?_) hlater p hp
            obtain ⟨⟨b, w⟩, hmem, rfl⟩ := Option.map_eq_some_iff.mp hq
            exact hextend b w c (hword _ hmem)
          next _ =>
            rcases List.mem_append.mp hp with hp | hp
            · exact hword p (Option.mem_toList.mp hp)
            · refine ih (fun q hq => ?_) hlater p hp
              split at hq
              next _ =>
                cases hq
                have hfirst := hstart [] c ts rfl
                rwa [textOf, List.flatMap_nil, List.append_nil] at hfirst
              next _ => cases hq

theorem head?_of_isNative {w : Text} (h : isNative d w = true) : w.head? = some (sigil d) := by
  cases d with
  | postgres => exact of_decide_eq_true (Bool.and_eq_true_iff.mp h).1
  | oracle => exact of_decide_eq_true (Bool.and_eq_true_iff.mp h).1
  | sqlserver => exact of_decide_eq_true (Bool.and_eq_true_iff.mp (Bool.and_eq_true_iff.mp h).1).1
  | mysql => rw [of_decide_eq_true h]; rfl
  | other => rw [of_decide_eq_true h]; rfl

/-- Where no sigil is read there is no native placeholder. -/
theorem filter_words_eq_nil {ts : List Lexeme} (hts : .rune (sigil d) ∉ ts) (done : Text) :
    (words d done none ts).filter (fun p => isNative d p.2) = [] := by
  have hheads : ∀ p ∈ words d done none ts, ∃ c, p.2.head? = some c ∧ c ≠ sigil d := by
    refine words_forall ?_ (fun q hq => absurd hq (Option.not_mem_none q)) ?_
    · rintro b w c ⟨x, hx, hne⟩
      cases w with
      | nil => cases hx
      | cons y w => exact ⟨x, hx, hne⟩
    · intro front c back heq
      refine ⟨c, rfl, ?_⟩
      rintro rfl
      exact hts (by rw [heq]; exact List.mem_append_right _ List.mem_cons_self)
  rw [List.filter_eq_nil_iff]
  intro p hp hnative
  obtain ⟨c, hc, hne⟩ := hheads p hp
  rw [head?_of_isNative hnative] at hc
  exact hne (Option.some.inj hc).symm

theorem length_before_le {ts : List Lexeme} {p : Text × Text} (hp : p ∈ words d [] none ts) :
    p.1.length ≤ (textOf ts).length := by
  refine words_forall (P := fun p => p.1.length ≤ (textOf ts).length) (fun _ _ _ h => h)
    (fun q hq => absurd hq (Option.not_mem_none q)) ?_ p hp
  intro front c back heq
  rw [List.nil_append, heq, textOf, textOf, List.flatMap_append, List.length_append]
  exact Nat.le_add_right _ _

end Words

/-! ## The text up to a tail -/

/-- A text before quiet tails is read to its end, or its last lexeme takes the tails. -/
theorem reads_or_takes (d : Dialect) (s : Text) :
    (∃ ts, ∀ t, Quiet t → LexesTo (codeLexeme d) (s ++ t) ts t) ∨
      ∃ ts r, textOf ts ++ r = s ∧ r ≠ [] ∧
        ∀ t, Quiet t → ∃ x, x.rune? = none ∧ Lexes (codeLexeme d) (s ++ t) (ts ++ [x]) := by
  induction hn : s.length using Nat.strongRecOn generalizing s with
  | _ n ih =>
      cases s with
      | nil => exact .inl ⟨[], fun t _ => .done⟩
      | cons c rest =>
          rcases code_readsUpTo d c rest with ⟨x, r, hr, hread⟩ | htake
          · rw [List.length_cons] at hn
            have htext : x.text ++ r = c :: rest := by
              have hblank := (lexeme_text (codeForms_proper d) (hread [' '] quiet_blank)).2
              rw [← List.append_assoc, ← List.cons_append] at hblank
              exact List.append_cancel_right hblank
            rcases ih r.length (by omega) r rfl with ⟨ts, hts⟩ | ⟨ts, r', hr', hne, hts⟩
            · exact .inl ⟨x :: ts, fun t ht => .read (hread t ht) (hts t ht)⟩
            · refine .inr ⟨x :: ts, r', ?_, hne, fun t ht => ?_⟩
              · rw [← htext, ← hr', textOf, List.flatMap_cons, List.append_assoc]
                rfl
              · obtain ⟨y, hy, hlex⟩ := hts t ht
                exact ⟨y, hy, .read (hread t ht) hlex⟩
          · refine .inr ⟨[], c :: rest, rfl, List.cons_ne_nil _ _, fun t ht => ?_⟩
            obtain ⟨x, hx⟩ := htake t ht
            refine ⟨x, ?_, .single hx⟩
            -- the lexeme is longer than a rune
            have htext := (lexeme_text (codeForms_proper d) hx).2
            obtain ⟨t', rfl⟩ := ht.exists_cons
            cases x with
            | rune y =>
                have hlen := congrArg List.length htext
                simp [Lexeme.text] at hlen
            | region text => rfl
            | cast => rfl
            | param name => rfl

/-- A blank behind the text stands at a code position. -/
def endsInCode (d : Dialect) (s : Text) : Bool :=
  (lexAll (codeLexeme d) (s ++ [' '])).any fun ts => ts.getLast? = some (.rune ' ')

theorem endsInCode_of_reads {d : Dialect} {s : Text} {ts : List Lexeme}
    (h : LexesTo (codeLexeme d) (s ++ [' ']) ts [' ']) : endsInCode d s = true := by
  have hlex : Lexes (codeLexeme d) (s ++ [' ']) (ts ++ [.rune ' ']) :=
    h.trans (.single (codeLexeme_blank d []))
  rw [endsInCode, (lexAll_eq_some_iff (codeLexeme_consuming d)).mpr hlex]
  simp

theorem endsInCode_of_takes {d : Dialect} {s : Text} {ts : List Lexeme} {x : Lexeme}
    (hx : x.rune? = none) (h : Lexes (codeLexeme d) (s ++ [' ']) (ts ++ [x])) :
    endsInCode d s = false := by
  have hne : x ≠ .rune ' ' := by
    rintro rfl
    cases hx
  rw [endsInCode, (lexAll_eq_some_iff (codeLexeme_consuming d)).mpr h]
  simp [hne]

/-! ## Placeholders as words -/

section Placeholder

variable {d : Dialect}

/-- The word `p` ends where the next rune does not go on with it. -/
theorem words_flush (done : Text) {p : Text × Text} {ts : List Lexeme}
    (h : ∀ c back, ts = .rune c :: back → extendsWord d p.2 c = false) :
    words d done (some p) ts = p :: words d done none ts := by
  cases ts with
  | nil => rfl
  | cons t ts =>
      cases t using Lexeme.cases_rune with
      | dropped t hr => rw [words_cons_region done _ hr, words_cons_region done _ hr]; rfl
      | rune c =>
          have hc : (some p).any (fun q => extendsWord d q.2 c) = false := h c ts rfl
          rw [words_start done hc, words_start done rfl]
          rfl

theorem words_extend_all (done : Text) {b w v : Text} (ts : List Lexeme)
    (h : ∀ c ∈ v, ∀ u, w <+: u → extendsWord d u c = true) :
    words d done (some (b, w)) (v.map .rune ++ ts) = words d (done ++ v) (some (b, w ++ v)) ts := by
  induction v generalizing done w with
  | nil => rw [List.map_nil, List.nil_append, List.append_nil, List.append_nil]
  | cons c v ih =>
      have hc := h c List.mem_cons_self w List.prefix_rfl
      rw [List.map_cons, List.cons_append, words_extend done hc, ih]
      · rw [List.append_assoc, List.append_assoc]
        rfl
      · intro x hx u hu
        exact h x (List.mem_cons_of_mem c hx) u ((List.prefix_append w [c]).trans hu)

theorem isNumeral_decimal (n : Nat) : isNumeral (Strings.decimal n) = true := by
  rw [isNumeral, Bool.and_eq_true]
  exact ⟨decide_eq_true Nat.toDigits_ne_nil, decimal_all (fun _ h => h) n⟩

/-- A placeholder is a word, if no word before it goes on with its sigil. -/
theorem words_placeholder (done : Text) (n : Nat) (ts : List Lexeme) :
    words d done none ((placeholderForDialect d n).map .rune ++ ts) =
      words d (done ++ placeholderForDialect d n) (some (done, placeholderForDialect d n)) ts := by
  have hdigits : ∀ {w : Text}, (∀ c u, c.isDigit = true → w <+: u → extendsWord d u c = true) →
      words d (done ++ w) (some (done, w)) ((Strings.decimal n).map .rune ++ ts) =
        words d (done ++ (w ++ Strings.decimal n)) (some (done, w ++ Strings.decimal n)) ts := by
    intro w hw
    rw [words_extend_all _ _ fun c hc u hu => hw c u (Strings.isDigit_decimal hc) hu, List.append_assoc]
  cases d with
  | postgres =>
      refine Eq.trans ?_ (hdigits (w := ['$']) ?_)
      · rw [show placeholderForDialect .postgres n = '$' :: Strings.decimal n from rfl, List.map_cons,
          List.cons_append, words_start done rfl]
        rfl
      · rintro c u hc ⟨v, rfl⟩
        exact hc
  | sqlserver =>
      refine Eq.trans ?_ (hdigits (w := ['@', 'p']) ?_)
      · rw [show placeholderForDialect .sqlserver n = '@' :: 'p' :: Strings.decimal n from rfl,
          List.map_cons, List.cons_append, words_start done rfl, List.map_cons, List.cons_append]
        show words .sqlserver (done ++ ['@']) (some (done, ['@'])) _ = _
        rw [words_extend _ rfl, List.append_assoc]
        rfl
      · intro c u hc _
        simp [extendsWord, isIdentPart_of_isDigit hc]
  | oracle =>
      refine Eq.trans ?_ (hdigits (w := [':']) fun c u hc _ => hc)
      rw [show placeholderForDialect .oracle n = ':' :: Strings.decimal n from rfl, List.map_cons,
        List.cons_append, words_start done rfl]
      rfl
  | mysql => exact words_start done rfl ts
  | other => exact words_start done rfl ts

theorem isNative_placeholder (n : Nat) : isNative d (placeholderForDialect d n) = true := by
  cases d with
  | postgres => exact isNumeral_decimal n
  | sqlserver => exact isNumeral_decimal n
  | oracle => exact isNumeral_decimal n
  | mysql => rfl
  | other => rfl

theorem textOf_runes (s : Text) : textOf (s.map .rune) = s := by
  induction s with
  | nil => rfl
  | cons c s ih => exact congrArg (c :: ·) ih

/-- The native placeholders of a list of lexemes behind a text. -/
def nativesFrom (d : Dialect) (done : Text) (ts : List Lexeme) : List (Text × Text) :=
  (words d done none ts).filter fun p => isNative d p.2

/-- A text that has no sigil and ends with a blank adds nothing. -/
theorem nativesFrom_text (done : Text) {s : Text} (hs : sigil d ∉ s) (ts : List Lexeme) :
    nativesFrom d done ((s ++ [' ']).map .rune ++ ts) = nativesFrom d (done ++ (s ++ [' '])) ts := by
  have hmem : .rune (sigil d) ∉ s.map Lexeme.rune := by
    intro hmem
    obtain ⟨c, hc, heq⟩ := List.mem_map.mp hmem
    cases heq
    exact hs hc
  rw [List.map_append, List.append_assoc]
  show (words d done none (s.map .rune ++ .rune ' ' :: ts)).filter _ = _
  rw [words_append_break breaks_blank, List.filter_append, filter_words_eq_nil hmem, List.nil_append, textOf_runes,
    List.append_assoc]
  rfl

/-- A placeholder is a native placeholder, if what follows does not go on with it. -/
theorem nativesFrom_placeholder (done : Text) (n : Nat) {ts : List Lexeme}
    (h : ∀ c back, ts = .rune c :: back → extendsWord d (placeholderForDialect d n) c = false) :
    nativesFrom d done ((placeholderForDialect d n).map .rune ++ ts) =
      (done, placeholderForDialect d n) :: nativesFrom d (done ++ placeholderForDialect d n) ts := by
  rw [nativesFrom, words_placeholder, words_flush _ h, List.filter_cons, if_pos (isNative_placeholder n)]
  rfl

end Placeholder

/-! ## Runes that are code -/

/-- The runes at which a form of the dialect may open, but for the letter of an Oracle quote. -/
def formRunes : Dialect → List Char
  | .postgres => ['$']
  | .mysql => ['`', '#']
  | .sqlserver => ['[']
  | .oracle | .other => []

/-- The runes at which a database of the dialect may read more than the rune. -/
def codeOpeners : Dialect → List Char
  | .postgres => ['"', '\'', '-', '/', '$']
  | .mysql => ['"', '\'', '-', '/', '`', '#']
  | .sqlserver => ['"', '\'', '-', '/', '[']
  | .oracle => ['"', '\'', '-', '/', 'q', 'Q']
  | .other => ['"', '\'', '-', '/']

def isCodeRune (d : Dialect) (c : Char) : Bool := !(codeOpeners d).contains c

section Code

variable {d : Dialect}

theorem ne_of_isCodeRune {c x : Char} (hc : isCodeRune d c = true) (hx : isCodeRune d x = false) :
    c ≠ x := by
  rintro rfl
  rw [hc] at hx
  cases hx

theorem isCodeRune_of_isDigit {c : Char} (h : c.isDigit = true) : isCodeRune d c = true := by
  have hall : (codeOpeners d).all (fun x => !x.isDigit) = true := by cases d <;> rfl
  rw [isCodeRune, Bool.not_eq_true', ← Bool.not_eq_true, List.contains_iff_mem]
  intro hmem
  have hno := List.all_eq_true.mp hall c hmem
  rw [h] at hno
  cases hno

/-- No form opens at another rune, but for the letter of an Oracle quote. -/
theorem codeForms_no {c : Char} {rest : Text} (hc : (formRunes d).contains c = false)
    (hquote : d = .oracle → c = 'q' ∨ c = 'Q' → rest.head? ≠ some '\'') :
    codeForms d (c :: rest) = .no := by
  have hne : ∀ x, (formRunes d).contains x = true → c ≠ x := by
    rintro x hx rfl
    rw [hc] at hx
    cases hx
  cases d with
  | postgres => simp [codeForms, opensDollar, pgDollarEnd, Opening.ofQuote, hne '$' rfl]
  | mysql => simp [codeForms, nativeForms, hne '`' rfl, hne '#' rfl]
  | sqlserver => simp [codeForms, nativeForms, hne '[' rfl]
  | oracle =>
      have hlower : lowerQuote (c :: rest) = (if c = 'Q' then 'q' else c) :: rest := by
        by_cases hc : c = 'Q' <;> simp [lowerQuote, hc]
      have hopens : opensOracleQuote (lowerQuote (c :: rest)) = false ∧
          oracleQuoteEnd (lowerQuote (c :: rest)) = none := by
        rw [hlower]
        cases rest with
        | nil => exact ⟨by simp [opensOracleQuote], by simp [oracleQuoteEnd]⟩
        | cons c₁ rest =>
            have hno : ¬((if c = 'Q' then 'q' else c) = 'q' ∧ c₁ = '\'') := by
              rintro ⟨hc, rfl⟩
              refine hquote rfl ?_ rfl
              split at hc
              next hupper => exact .inr hupper
              next _ => exact .inl hc
            exact ⟨opensOracleQuote_of_ne hno, oracleQuoteEnd_of_ne hno⟩
      simp [codeForms, hopens.1, hopens.2, Opening.ofQuote]
  | other => rfl

theorem codeForms_rune {c : Char} (hc : isCodeRune d c = true) (rest : Text) :
    codeForms d (c :: rest) = .no := by
  refine codeForms_no ?_ ?_
  · have hforms : (formRunes d).all (fun x => !isCodeRune d x) = true := by cases d <;> rfl
    rw [← Bool.not_eq_true, List.contains_iff_mem]
    intro hmem
    exact ne_of_isCodeRune hc ((Bool.not_eq_true' _).mp (List.all_eq_true.mp hforms c hmem)) rfl
  · rintro rfl (rfl | rfl)
    · cases hc
    · cases hc

theorem codeLexeme_rune {c : Char} (hc : isCodeRune d c = true) (rest : Text) :
    codeLexeme d (c :: rest) = some (.rune c, rest) := by
  have hne : ∀ x ∈ ['"', '\'', '-', '/'], c ≠ x := by
    intro x hx
    have hall : ['"', '\'', '-', '/'].all (fun y => !isCodeRune d y) = true := by cases d <;> rfl
    exact ne_of_isCodeRune hc ((Bool.not_eq_true' _).mp (List.all_eq_true.mp hall x hx))
  simp only [codeLexeme, lexeme, codeForms_rune hc, commonLexeme]
  simp [hne '"' (by simp), hne '\'' (by simp), hne '-' (by simp), hne '/' (by simp)]

theorem lexesTo_codeRunes {s : Text} (h : s.all (isCodeRune d) = true) (r : Text) :
    LexesTo (codeLexeme d) (s ++ r) (s.map .rune) r := by
  induction s with
  | nil => exact .done
  | cons c s ih =>
      obtain ⟨hc, hs⟩ := Bool.and_eq_true_iff.mp (List.all_cons ▸ h)
      exact .read (codeLexeme_rune hc (s ++ r)) (ih hs)

/-- A dollar before a digit opens no quote. -/
theorem codeLexeme_dollar {x : Char} (hx : x.isDigit = true) (rest : Text) :
    codeLexeme .postgres ('$' :: x :: rest) = some (.rune '$', x :: rest) := by
  have hpart : isIdentPart x = true := isIdentPart_of_isDigit hx
  have hstart : isIdentStart x = false := by
    have hall : ['0', '1', '2', '3', '4', '5', '6', '7', '8', '9'].all (fun y => !isIdentStart y) = true := rfl
    exact (Bool.not_eq_true' _).mp (List.all_eq_true.mp hall x (Strings.mem_digits hx))
  have hforms : codeForms .postgres ('$' :: x :: rest) = .no := by
    simp [codeForms, opensDollar, pgDollarEnd, hpart, hstart, Opening.ofQuote]
  simp [codeLexeme, lexeme, hforms, commonLexeme]

theorem lexesTo_placeholder (n : Nat) (r : Text) :
    LexesTo (codeLexeme d) (placeholderForDialect d n ++ r)
      ((placeholderForDialect d n).map .rune) r := by
  have hdigits : LexesTo (codeLexeme d) (Strings.decimal n ++ r) ((Strings.decimal n).map .rune) r :=
    lexesTo_codeRunes (decimal_all (fun _ => isCodeRune_of_isDigit) n) r
  cases d with
  | postgres =>
      refine .read ?_ hdigits
      obtain ⟨x, ds, hds⟩ : ∃ x ds, Strings.decimal n = x :: ds :=
        List.exists_cons_of_ne_nil Nat.toDigits_ne_nil
      have hx : x.isDigit = true := Strings.isDigit_decimal (n := n) (hds ▸ List.mem_cons_self)
      show codeLexeme .postgres ('$' :: (Strings.decimal n ++ r)) = some (.rune '$', Strings.decimal n ++ r)
      rw [hds]
      exact codeLexeme_dollar hx (ds ++ r)
  | sqlserver => exact .read (codeLexeme_rune rfl _) (.read (codeLexeme_rune rfl _) hdigits)
  | oracle => exact .read (codeLexeme_rune rfl _) hdigits
  | mysql => exact .single (codeLexeme_rune rfl _)
  | other => exact .single (codeLexeme_rune rfl _)

end Code

end DDAG.Gateway
