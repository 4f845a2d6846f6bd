import DDAG.Lib.Lexing
import DDAG.Connectors.Bind
import Mathlib.Data.List.TakeWhile
import Mathlib.Tactic.SplitIfs

/-!
# The scanners as loops over lexemes

A template is a sequence of *lexemes*: regions that are copied or dropped
whole (quoted text and comments), casts `::`, parameters `:name` and single
runes.  The three scanners read the same lexemes and differ in two things.
The quoting *forms* of a dialect are read by `publishForms` on the publish
side and by `bindForms` in the binder, and `StripDialect` reads no casts and
no parameters (`binds`).

`bindDialectBody_eq`, `extractBody_eq` and `stripBody_eq` say that each loop is
the scanning loop of its lexer.  What follows is said of lexemes:
`extract_eq_some_iff`, `strip_eq_some_iff` and `bindDialect_eq` give the
results of the scanners as functions of the lexemes of the template.
-/

namespace DDAG.Connectors

open Machine

/-! ## Lexemes -/

/-- A piece of a template. -/
inductive Lexeme where
  /-- Quoted text or a comment. -/
  | region (text : Text)
  /-- The cast operator `::`. -/
  | cast
  /-- A parameter `:name`. -/
  | param (name : Text)
  | rune (c : Char)
deriving DecidableEq

/-- The runes of the template a lexeme stands for. -/
def Lexeme.text : Lexeme → Text
  | .region text => text
  | .cast => [':', ':']
  | .param name => ':' :: name
  | .rune c => [c]

/-- The parameter a lexeme names. -/
def Lexeme.name? : Lexeme → Option Text
  | .param name => some name
  | _ => none

/-- The rune a lexeme keeps in the code text. -/
def Lexeme.rune? : Lexeme → Option Char
  | .rune c => some c
  | _ => none

@[elab_as_elim]
theorem Lexeme.cases_name {motive : Lexeme → Prop} (copied : ∀ t : Lexeme, t.name? = none → motive t)
    (param : ∀ name, motive (.param name)) (t : Lexeme) : motive t := by
  cases t with
  | param name => exact param name
  | region text => exact copied _ rfl
  | cast => exact copied _ rfl
  | rune c => exact copied _ rfl

@[elab_as_elim]
theorem Lexeme.cases_rune {motive : Lexeme → Prop} (dropped : ∀ t : Lexeme, t.rune? = none → motive t)
    (rune : ∀ c, motive (.rune c)) (t : Lexeme) : motive t := by
  cases t with
  | rune c => exact rune c
  | region text => exact dropped _ rfl
  | cast => exact dropped _ rfl
  | param name => exact dropped _ rfl

/-- The parameters of a list of lexemes, repeats included. -/
def paramNames (ts : List Lexeme) : List Text := ts.filterMap Lexeme.name?

/-- The runes of a list of lexemes outside its regions. -/
def codeText (ts : List Lexeme) : Text := ts.filterMap Lexeme.rune?

/-- The text of a list of lexemes, as the template has it. -/
def textOf (ts : List Lexeme) : Text := ts.flatMap Lexeme.text

/-- What the quoting rules of a dialect say about a position. -/
inductive Opening where
  /-- No form of the dialect opens here. -/
  | no
  /-- A form opens here and is closed; `after` is the text after it. -/
  | region (after : Text)
  /-- A form opens here and is never closed. -/
  | dangling

/-- The quoting forms of a dialect beyond those every dialect has. -/
abbrev Forms := Text → Opening

/-- No forms of its own, which is how `Bind` reads a template. -/
def plainForms : Forms := fun _ => .no

/-- An end that may not be there. -/
def Opening.ofEnd : Option Text → Opening
  | some after => .region after
  | none => .dangling

/-- The forms of a dialect other than dollar quotes, with what skips a line that starts with `#`. -/
def undollaredForms (d : Dialect) (skipHash : Text → Text) : Forms := fun s =>
  if d = .mysql ∧ s.head? = some '`' then .region (skipDelimited '`' s)
  else if d = .sqlserver ∧ s.head? = some '[' then .region (skipBracketIdentifier s)
  else if d = .mysql ∧ s.head? = some '#' then .region (skipHash s)
  else if d = .oracle ∧ opensOracleQuote s then .ofEnd (oracleQuoteEnd s)
  else .no

/-- The forms `ExtractParamNamesDialect` and `StripDialect` read. -/
def publishForms (d : Dialect) : Forms := fun s =>
  if s.head? = some '$' then .ofEnd (dollarQuoteEnd s) else undollaredForms d skipLine s

/-- The forms `bindDialect` reads. -/
def bindForms (d : Dialect) : Forms := fun s =>
  if d = .postgres ∧ s.head? = some '$' then .ofEnd (dollarQuoteEnd s)
  else undollaredForms d (fun s => (copyHash s).2) s

/-- The region from `s` to `after`. -/
def regionTo (s after : Text) : Option (Lexeme × Text) := some (.region (upTo s after), after)

/-- The lexeme at a position where no form of the dialect opens. -/
def commonLexeme (binds : Bool) (c : Char) (rest : Text) : Option (Lexeme × Text) :=
  if c = '"' then regionTo (c :: rest) (skipDelimited '"' (c :: rest))
  else if c = '\'' then regionTo (c :: rest) (skipLiteral rest)
  else if c = '-' ∧ rest.head? = some '-' then regionTo (c :: rest) (skipLine (c :: rest))
  else if c = '/' ∧ rest.head? = some '*' then regionTo (c :: rest) (skipBlock rest.tail)
  else if binds ∧ c = ':' ∧ rest.head? = some ':' then some (.cast, rest.tail)
  else if binds ∧ c = ':' ∧ rest.head?.any isIdentStart then
    some (.param (rest.takeWhile isIdentPart), rest.dropWhile isIdentPart)
  else some (.rune c, rest)

/-- The lexeme at a position, `none` at the end and where a form dangles. -/
def lexeme (forms : Forms) (binds : Bool) : Lexer Char Lexeme
  | [] => none
  | c :: rest =>
      match forms (c :: rest) with
      | .region after => regionTo (c :: rest) after
      | .dangling => none
      | .no => commonLexeme binds c rest

/-! ## Slices of a text -/

theorem upTo_append (text after : Text) : upTo (text ++ after) after = text := by
  simp [upTo]

theorem upTo_of_suffix {s after : Text} (h : after <:+ s) : upTo s after ++ after = s := by
  obtain ⟨text, rfl⟩ := h
  rw [upTo_append]

theorem upTo_eq {s text after : Text} (h : text ++ after = s) : upTo s after = text := by
  rw [← h, upTo_append]

/-! ## The skipping loops leave a suffix -/

theorem skipDelimitedFrom_suffix (quote : Char) (s : Text) : skipDelimitedFrom quote s <:+ s := by
  fun_induction skipDelimitedFrom quote s with
  | case1 => exact List.suffix_rfl
  | case2 => exact List.nil_suffix
  | case3 rest' ih => exact (ih.trans (List.suffix_cons _ _)).trans (List.suffix_cons _ _)
  | case4 c' rest' _ => exact List.suffix_cons _ _
  | case5 c rest _ ih => exact ih.trans (List.suffix_cons _ _)

theorem skipDelimited_suffix (quote : Char) (c : Char) (rest : Text) :
    skipDelimited quote (c :: rest) <:+ rest :=
  skipDelimitedFrom_suffix quote rest

theorem skipLiteral_suffix (s : Text) : skipLiteral s <:+ s := by
  fun_induction skipLiteral s with
  | case1 => exact List.suffix_rfl
  | case2 rest ih => exact (ih.trans (List.suffix_cons _ _)).trans (List.suffix_cons _ _)
  | case3 rest _ => exact List.suffix_cons _ _
  | case4 c rest _ _ ih => exact ih.trans (List.suffix_cons _ _)

theorem skipBlock_suffix (s : Text) : skipBlock s <:+ s := by
  fun_induction skipBlock s with
  | case1 => exact List.suffix_rfl
  | case2 rest => exact ⟨['*', '/'], rfl⟩
  | case3 c rest _ ih => exact ih.trans (List.suffix_cons _ _)

theorem findTag_suffix {tag : Text} {s after : Text} (h : findTag tag s = some after) :
    after <:+ s := by
  fun_induction findTag tag s with
  | case1 => cases h
  | case2 c rest _ =>
      cases h
      exact List.drop_suffix _ _
  | case3 c rest _ ih => exact (ih h).trans (List.suffix_cons _ _)

theorem findClose_suffix {close : Char} {s after : Text} (h : findClose close s = some after) :
    after <:+ s := by
  fun_induction findClose close s with
  | case1 c c' rest _ =>
      cases h
      exact ⟨[c, c'], rfl⟩
  | case2 c c' rest _ ih => exact (ih h).trans (List.suffix_cons _ _)
  | case3 => cases h

theorem dollarQuoteEnd_suffix {c : Char} {rest after : Text}
    (h : dollarQuoteEnd (c :: rest) = some after) : after <:+ rest := by
  unfold dollarQuoteEnd at h
  split at h
  next rest' heq =>
    cases heq
    simp only at h
    split at h
    next _ => exact (findTag_suffix h).trans (List.drop_suffix _ _)
    next _ => cases h
  next _ => cases h

theorem oracleQuoteEnd_suffix {c : Char} {rest after : Text}
    (h : oracleQuoteEnd (c :: rest) = some after) : after <:+ rest := by
  unfold oracleQuoteEnd at h
  split at h
  next r rest' heq =>
    cases heq
    exact (findClose_suffix h).trans ⟨['\'', r], rfl⟩
  next _ => cases h

/-! ## Reading a lexeme consumes it -/

/-- The forms of a dialect take at least the rune they open at. -/
def Forms.Proper (forms : Forms) : Prop :=
  ∀ (c : Char) (rest after : Text), forms (c :: rest) = .region after → after <:+ rest

theorem plainForms_proper : Forms.Proper plainForms := by
  intro c rest after h
  cases h

theorem Opening.ofEnd_region {o : Option Text} {after : Text}
    (h : Opening.ofEnd o = .region after) : o = some after := by
  cases o with
  | none => cases h
  | some a =>
      cases h
      rfl

theorem skipLine_suffix (s : Text) : skipLine s <:+ s := List.dropWhile_suffix _

theorem skipLine_cons {c : Char} (hc : c ≠ '\n') (rest : Text) :
    skipLine (c :: rest) = skipLine rest := by
  simp [skipLine, hc]

theorem copyHash_suffix (s : Text) : (copyHash s).2 <:+ s := by
  fun_induction copyHash s with
  | case1 => exact List.suffix_rfl
  | case2 rest => exact List.suffix_cons _ _
  | case3 c rest _ p ih => exact ih.trans (List.suffix_cons _ _)

theorem copyHash_cons {c : Char} (hc : c ≠ '\n') (rest : Text) :
    (copyHash (c :: rest)).2 = (copyHash rest).2 := by
  simp [copyHash, hc]

theorem undollaredForms_proper (d : Dialect) {skipHash : Text → Text}
    (hhash : ∀ rest, skipHash ('#' :: rest) <:+ rest) : Forms.Proper (undollaredForms d skipHash) := by
  intro c rest after h
  simp only [undollaredForms, List.head?_cons, Option.some.injEq] at h
  split_ifs at h with h1 h2 h3 h4
  · cases h
    exact skipDelimited_suffix _ c rest
  · cases h
    exact skipDelimited_suffix _ c rest
  · cases h
    rw [h3.2]
    exact hhash rest
  · exact oracleQuoteEnd_suffix (Opening.ofEnd_region h)

theorem publishForms_proper (d : Dialect) : Forms.Proper (publishForms d) := by
  intro c rest after h
  unfold publishForms at h
  split at h
  next _ => exact dollarQuoteEnd_suffix (Opening.ofEnd_region h)
  next _ =>
    refine undollaredForms_proper d (fun rest => ?_) c rest after h
    rw [skipLine_cons (by decide)]
    exact skipLine_suffix rest

theorem bindForms_proper (d : Dialect) : Forms.Proper (bindForms d) := by
  intro c rest after h
  unfold bindForms at h
  split at h
  next _ => exact dollarQuoteEnd_suffix (Opening.ofEnd_region h)
  next _ =>
    refine undollaredForms_proper d (fun rest => ?_) c rest after h
    rw [copyHash_cons (by decide)]
    exact copyHash_suffix rest

/-- What a lexeme stands for, and what is left, make up the text. -/
theorem commonLexeme_text {binds : Bool} {c : Char} {rest after : Text} {t : Lexeme}
    (h : commonLexeme binds c rest = some (t, after)) :
    after <:+ rest ∧ t.text ++ after = c :: rest := by
  have hregion : ∀ r, r <:+ rest → regionTo (c :: rest) r = some (t, after) →
      after <:+ rest ∧ t.text ++ after = c :: rest := by
    intro r hr hreg
    cases hreg
    exact ⟨hr, upTo_of_suffix (hr.trans (List.suffix_cons _ _))⟩
  simp only [commonLexeme] at h
  split_ifs at h with h1 h2 h3 h4 h5 h6
  · exact hregion _ (skipDelimited_suffix _ c rest) h
  · exact hregion _ (skipLiteral_suffix rest) h
  · refine hregion _ ?_ h
    rw [skipLine_cons (by rw [h3.1]; decide)]
    exact skipLine_suffix rest
  · exact hregion _ ((skipBlock_suffix _).trans (List.tail_suffix rest)) h
  · cases h
    obtain ⟨_, rfl, hhead⟩ := h5
    cases rest with
    | nil => cases hhead
    | cons c' rest' =>
        cases hhead
        exact ⟨List.suffix_cons _ _, rfl⟩
  · cases h
    refine ⟨List.dropWhile_suffix _, ?_⟩
    simp [Lexeme.text, h6.2.1]
  · cases h
    exact ⟨List.suffix_rfl, rfl⟩

theorem lexeme_text {forms : Forms} (hf : forms.Proper) {binds : Bool} {c : Char}
    {rest after : Text} {t : Lexeme} (h : lexeme forms binds (c :: rest) = some (t, after)) :
    after <:+ rest ∧ t.text ++ after = c :: rest := by
  cases ho : forms (c :: rest) with
  | no =>
      simp only [lexeme, ho] at h
      exact commonLexeme_text h
  | dangling => simp [lexeme, ho] at h
  | region a =>
      simp only [lexeme, ho] at h
      cases h
      have hsuf := hf c rest after ho
      exact ⟨hsuf, upTo_of_suffix (hsuf.trans (List.suffix_cons _ _))⟩

theorem lexeme_nil (forms : Forms) (binds : Bool) : lexeme forms binds [] = none := rfl

theorem lexeme_consuming {forms : Forms} (hf : forms.Proper) (binds : Bool) :
    Consuming (lexeme forms binds) where
  nil := lexeme_nil forms binds
  shorter := by
    intro s s' t h
    cases s with
    | nil =>
        rw [lexeme_nil] at h
        cases h
    | cons c rest =>
        have hle := (lexeme_text hf h).1.length_le
        simp only [List.length_cons]
        omega

theorem lexeme_eq_none_iff {forms : Forms} {binds : Bool} {c : Char} {rest : Text} :
    lexeme forms binds (c :: rest) = none ↔ forms (c :: rest) = .dangling := by
  cases ho : forms (c :: rest) with
  | region a => simp [lexeme, ho, regionTo]
  | dangling => simp [lexeme, ho]
  | no =>
      simp only [lexeme, ho, commonLexeme, regionTo]
      split_ifs <;> simp

/-- The lexemes of a text make it up. -/
theorem lexesTo_text {forms : Forms} (hf : forms.Proper) {binds : Bool} {s r : Text}
    {ts : List Lexeme} (h : LexesTo (lexeme forms binds) s ts r) :
    ts.flatMap Lexeme.text ++ r = s := by
  induction h with
  | done => rfl
  | @read s s' r t ts hl _ ih =>
      cases s with
      | nil => cases hl
      | cons c rest => rw [List.flatMap_cons, List.append_assoc, ih, (lexeme_text hf hl).2]

theorem lexes_text {forms : Forms} (hf : forms.Proper) {binds : Bool} {s : Text}
    {ts : List Lexeme} (h : Lexes (lexeme forms binds) s ts) : textOf ts = s := by
  have htext := lexesTo_text hf h
  rwa [List.append_nil] at htext

/-! ## Parameter names -/

/-- A parameter name starts like an identifier and goes on like one. -/
def IsName (name : Text) : Prop :=
  name.head?.any isIdentStart = true ∧ ∀ c ∈ name, isIdentPart c = true

theorem isIdentPart_of_isIdentStart {c : Char} (h : isIdentStart c = true) : isIdentPart c = true := by
  rw [isIdentPart, h, Bool.true_or]

theorem regionTo_ne_param {s r name after : Text} : regionTo s r ≠ some (.param name, after) := by
  intro h
  cases h

/-- A parameter is a colon and a name that goes on as long as it can. -/
theorem lexeme_param {forms : Forms} {binds : Bool} {c : Char} {rest name after : Text}
    (h : lexeme forms binds (c :: rest) = some (.param name, after)) :
    c = ':' ∧ IsName name ∧ rest = name ++ after ∧ after = rest.dropWhile isIdentPart := by
  cases ho : forms (c :: rest) with
  | region a =>
      simp only [lexeme, ho] at h
      exact absurd h regionTo_ne_param
  | dangling => simp [lexeme, ho] at h
  | no =>
      simp only [lexeme, ho, commonLexeme] at h
      split_ifs at h with h1 h2 h3 h4 h5 h6
      · exact absurd h regionTo_ne_param
      · exact absurd h regionTo_ne_param
      · exact absurd h regionTo_ne_param
      · exact absurd h regionTo_ne_param
      · cases h
      · cases h
        refine ⟨h6.2.1, ⟨?_, fun x hx => List.mem_takeWhile_imp hx⟩,
          List.takeWhile_append_dropWhile.symm, rfl⟩
        cases rest with
        | nil => cases h6.2.2
        | cons c' rest' =>
            have hc' : isIdentStart c' = true := h6.2.2
            rw [List.takeWhile_cons, if_pos (isIdentPart_of_isIdentStart hc')]
            exact hc'
      · cases h

theorem lexesTo_names {forms : Forms} {binds : Bool} {s r : Text} {ts : List Lexeme}
    (h : LexesTo (lexeme forms binds) s ts r) : ∀ name ∈ paramNames ts, IsName name := by
  induction h with
  | done => exact fun _ hname => absurd hname List.not_mem_nil
  | @read s s' r t ts hl _ ih =>
      intro name hname
      cases s with
      | nil => cases hl
      | cons c rest =>
          rw [paramNames, List.mem_filterMap] at hname
          obtain ⟨u, hu, hun⟩ := hname
          rcases List.mem_cons.mp hu with rfl | hu
          · cases u <;> cases hun
            exact (lexeme_param hl).2.1
          · exact ih name (List.mem_filterMap.mpr ⟨u, hu, hun⟩)

/-! ## The copying loops -/

theorem copyDelimitedFrom_eq (quote : Char) (s : Text) :
    (copyDelimitedFrom quote s).2 = skipDelimitedFrom quote s ∧
      (copyDelimitedFrom quote s).1 ++ (copyDelimitedFrom quote s).2 = s := by
  fun_induction copyDelimitedFrom quote s with
  | case1 => exact ⟨rfl, rfl⟩
  | case2 => simp [skipDelimitedFrom]
  | case3 rest' p ih => simpa [skipDelimitedFrom] using ih
  | case4 c' rest' h => simp [skipDelimitedFrom, h]
  | case5 c rest h p ih =>
      refine ⟨?_, by simpa using ih.2⟩
      rw [skipDelimitedFrom.eq_def]
      simpa [h] using ih.1

/-- The binder copies the region it skips. -/
theorem copyDelimited_eq (quote c : Char) (rest : Text) :
    copyDelimited quote (c :: rest) =
      (upTo (c :: rest) (skipDelimited quote (c :: rest)), skipDelimited quote (c :: rest)) := by
  obtain ⟨h1, h2⟩ := copyDelimitedFrom_eq quote rest
  refine Prod.ext (upTo_eq ?_).symm h1
  rw [skipDelimited, List.tail_cons, ← h1]
  simpa [copyDelimited] using h2

theorem copyLiteral_eq (s : Text) :
    (copyLiteral s).2 = skipLiteral s ∧ (copyLiteral s).1 ++ (copyLiteral s).2 = s := by
  fun_induction copyLiteral s with
  | case1 => exact ⟨rfl, rfl⟩
  | case2 rest p ih => simpa [skipLiteral] using ih
  | case3 rest h =>
      refine ⟨?_, rfl⟩
      rw [skipLiteral]
      exact h
  | case4 c rest h1 h2 p ih =>
      refine ⟨?_, by simpa using ih.2⟩
      rw [skipLiteral]
      · exact ih.1
      · exact h1
      · exact h2

theorem copyBlock_eq (s : Text) :
    (copyBlock s).2 = skipBlock s ∧ (copyBlock s).1 ++ (copyBlock s).2 = s := by
  fun_induction copyBlock s with
  | case1 => exact ⟨rfl, rfl⟩
  | case2 rest => exact ⟨rfl, rfl⟩
  | case3 c rest h p ih =>
      refine ⟨?_, by simpa using ih.2⟩
      rw [skipBlock]
      · exact ih.1
      · exact h

theorem copyHash_append (s : Text) : (copyHash s).1 ++ (copyHash s).2 = s := by
  fun_induction copyHash s with
  | case1 => rfl
  | case2 rest => rfl
  | case3 c rest _ p ih => simpa using ih

/-! ## The loops are scanning loops -/

section Actions

variable {α : Type*} (params : Table α) (ph : Placeholder)

/-- What the binder does with a lexeme. -/
def bindAct (b : Bound α) : Lexeme → Except (Binding α) (Bound α)
  | .param name =>
      match params name with
      | none => .error (.error (missingValue name))
      | some v => .ok (b.bind ph v)
  | t => .ok (b.copy t.text)

def bindFinish (b : Bound α) : Binding α := .ok (b.out, b.args)

end Actions

/-- What `ExtractParamNamesDialect` does with a lexeme. -/
def extractAct (order : List Text) (t : Lexeme) : Except (List Text) (List Text) :=
  .ok (match t.name? with
    | some name => addName order name
    | none => order)

/-- What `StripDialect` does with a lexeme. -/
def stripAct (out : Text) (t : Lexeme) : Except Text Text :=
  .ok (match t.rune? with
    | some c => out ++ [c]
    | none => out)

/-- The lexeme at a position where no dollar quote opens, in the order the scanners try the cases. -/
theorem lexeme_undollared (d : Dialect) (skipHash : Text → Text) (binds : Bool) (c : Char) (rest : Text) :
    lexeme (undollaredForms d skipHash) binds (c :: rest) =
      if d = .mysql ∧ c = '`' then regionTo (c :: rest) (skipDelimited '`' (c :: rest))
      else if d = .sqlserver ∧ c = '[' then
        regionTo (c :: rest) (skipBracketIdentifier (c :: rest))
      else if d = .mysql ∧ c = '#' then regionTo (c :: rest) (skipHash (c :: rest))
      else if d = .oracle ∧ opensOracleQuote (c :: rest) then
        (oracleQuoteEnd (c :: rest)).bind (regionTo (c :: rest))
      else commonLexeme binds c rest := by
  simp only [lexeme, undollaredForms, List.head?_cons, Option.some.injEq]
  split_ifs with h1 h2 h3 h4
  · rfl
  · rfl
  · rfl
  · cases oracleQuoteEnd (c :: rest) <;> rfl
  · rfl

theorem lexeme_publish (d : Dialect) (binds : Bool) (c : Char) (rest : Text) :
    lexeme (publishForms d) binds (c :: rest) =
      if c = '$' then (dollarQuoteEnd (c :: rest)).bind (regionTo (c :: rest))
      else lexeme (undollaredForms d skipLine) binds (c :: rest) := by
  simp only [lexeme, publishForms, List.head?_cons, Option.some.injEq]
  split_ifs with h
  · cases dollarQuoteEnd (c :: rest) <;> rfl
  · rfl

theorem lexeme_bind (d : Dialect) (binds : Bool) (c : Char) (rest : Text) :
    lexeme (bindForms d) binds (c :: rest) =
      if d = .postgres ∧ c = '$' then (dollarQuoteEnd (c :: rest)).bind (regionTo (c :: rest))
      else lexeme (undollaredForms d fun s => (copyHash s).2) binds (c :: rest) := by
  simp only [lexeme, bindForms, List.head?_cons, Option.some.injEq]
  split_ifs with h
  · cases dollarQuoteEnd (c :: rest) <;> rfl
  · rfl

/-- What a pass does at a form that may have no end. -/
theorem afterRead_end {κ ρ : Type*} (act : κ → Lexeme → Except ρ κ) {k : κ} (f : Text → κ)
    (hact : ∀ text, act k (.region text) = .ok (f text)) (s : Text) (o : Option Text) :
    afterRead act s k (o.bind (regionTo s)) =
      match o with
      | some after => .again (after, f (upTo s after))
      | none => .again (s, k) := by
  cases o with
  | none => rfl
  | some after => simp only [Option.bind_some, regionTo, afterRead, hact]

/-- No form that the switch tries after the double quote opens at one. -/
theorem dquote_opens_none (d : Dialect) {c : Char} (hc : c = '"') (rest : Text) :
    c ≠ '$' ∧ ¬(d = .mysql ∧ c = '`') ∧ ¬(d = .sqlserver ∧ c = '[') ∧
      ¬(d = .mysql ∧ c = '#') ∧ ¬(d = .oracle ∧ opensOracleQuote (c :: rest) = true) := by
  subst hc
  refine ⟨by decide, ?_, ?_, ?_, ?_⟩
  · exact fun h => absurd h.2 (by decide)
  · exact fun h => absurd h.2 (by decide)
  · exact fun h => absurd h.2 (by decide)
  · exact fun h => absurd h.2 Bool.false_ne_true

theorem extractBody_eq (d : Dialect) :
    extractBody d = scanBody (lexeme (publishForms d) true) extractAct id := by
  funext p
  obtain ⟨s, order⟩ := p
  cases s with
  | nil => rfl
  | cons c rest =>
      have hregion : ∀ after, afterRead extractAct (c :: rest) order (regionTo (c :: rest) after) =
          .again (after, order) := fun _ => rfl
      have hend := afterRead_end extractAct (fun _ => order) (fun _ => rfl) (c :: rest)
      simp only [extractBody, scanBody, lexeme_publish, lexeme_undollared, commonLexeme, true_and,
        apply_ite (afterRead extractAct (c :: rest) order), hregion, hend]
      by_cases hq : c = '"'
      · obtain ⟨h1, h2, h3, h4, h5⟩ := dquote_opens_none d hq rest
        simp only [h1, h2, h3, h4, h5, eq_true hq, ↓reduceIte]
      · simp only [if_neg hq]
        rfl

theorem stripBody_eq (d : Dialect) :
    stripBody d = scanBody (lexeme (publishForms d) false) stripAct id := by
  funext p
  obtain ⟨s, out⟩ := p
  cases s with
  | nil => rfl
  | cons c rest =>
      have hregion : ∀ after, afterRead stripAct (c :: rest) out (regionTo (c :: rest) after) =
          .again (after, out) := fun _ => rfl
      have hend := afterRead_end stripAct (fun _ => out) (fun _ => rfl) (c :: rest)
      simp only [stripBody, scanBody, lexeme_publish, lexeme_undollared, commonLexeme, Bool.false_eq_true, false_and,
        ↓reduceIte, apply_ite (afterRead stripAct (c :: rest) out), hregion, hend]
      by_cases hq : c = '"'
      · obtain ⟨h1, h2, h3, h4, h5⟩ := dquote_opens_none d hq rest
        simp only [h1, h2, h3, h4, h5, eq_true hq, ↓reduceIte]
      · simp only [if_neg hq]
        rfl

theorem copyBlock_region {c : Char} {rest : Text} (h : c = '/' ∧ rest.head? = some '*') :
    '/' :: '*' :: (copyBlock rest.tail).1 = upTo (c :: rest) (skipBlock rest.tail) := by
  obtain ⟨rfl, hhead⟩ := h
  cases rest with
  | nil => cases hhead
  | cons c' rest' =>
      cases hhead
      obtain ⟨h1, h2⟩ := copyBlock_eq rest'
      refine (upTo_eq ?_).symm
      rw [List.tail_cons, ← h1]
      simpa using h2

theorem copyLiteral_region (c : Char) (rest : Text) :
    c :: (copyLiteral rest).1 = upTo (c :: rest) (skipLiteral rest) := by
  obtain ⟨h1, h2⟩ := copyLiteral_eq rest
  refine (upTo_eq ?_).symm
  rw [← h1]
  simpa using h2

theorem takeWhile_line_region (s : Text) : s.takeWhile (· != '\n') = upTo s (skipLine s) :=
  (upTo_eq List.takeWhile_append_dropWhile).symm

theorem bindDialectBody_eq {α : Type*} (params : Table α) (ph : Placeholder) (d : Dialect) :
    bindDialectBody params ph d =
      scanBody (lexeme (bindForms d) true) (bindAct params ph) bindFinish := by
  funext p
  obtain ⟨s, b⟩ := p
  cases s with
  | nil => rfl
  | cons c rest =>
      have hregion : ∀ after,
          afterRead (bindAct params ph) (c :: rest) b (regionTo (c :: rest) after) =
            .again (after, b.copy (upTo (c :: rest) after)) := fun _ => rfl
      have hend := afterRead_end (bindAct params ph) b.copy (fun _ => rfl) (c :: rest)
      have hparam : ∀ name after,
          afterRead (bindAct params ph) (c :: rest) b (some (.param name, after)) =
            match params name with
            | none => .leave (.error (missingValue name))
            | some v => .again (after, b.bind ph v) := by
        intro name after
        simp only [afterRead, bindAct]
        cases params name <;> rfl
      have hhash : (copyHash (c :: rest)).1 = upTo (c :: rest) (copyHash (c :: rest)).2 :=
        (upTo_eq (copyHash_append _)).symm
      have hblock : ∀ r : Pass (Text × Bound α) (Binding α),
          (if c = '/' ∧ rest.head? = some '*' then
            Pass.again ((copyBlock rest.tail).2, b.copy ('/' :: '*' :: (copyBlock rest.tail).1))
          else r) =
            if c = '/' ∧ rest.head? = some '*' then
              .again (skipBlock rest.tail, b.copy (upTo (c :: rest) (skipBlock rest.tail)))
            else r := by
        intro r
        refine ite_congr rfl (fun h => ?_) (fun _ => rfl)
        rw [copyBlock_region h, (copyBlock_eq _).1]
      simp only [bindDialectBody, scanBody, lexeme_bind, lexeme_undollared, commonLexeme, true_and,
        apply_ite (afterRead (bindAct params ph) (c :: rest) b), hregion, hend, hparam,
        copyBracketIdentifier, skipBracketIdentifier, copyDelimited_eq, hhash, hblock,
        copyLiteral_region, (copyLiteral_eq rest).1, takeWhile_line_region]
      by_cases hq : c = '"'
      · obtain ⟨h1, h2, h3, h4, h5⟩ := dquote_opens_none d hq rest
        have h1' : ¬(d = .postgres ∧ c = '$') := fun h => h1 h.2
        simp only [h1', h2, h3, h4, h5, eq_true hq, ↓reduceIte]
      · simp only [if_neg hq]
        rfl

/-! ## The results of the scanners -/

/-- The names of a list in order of first occurrence, without repeats. -/
def firstOccurrences (names : List Text) : List Text := names.foldl addName []

theorem foldlM_extractAct (ts : List Lexeme) (order : List Text) :
    ts.foldlM extractAct order = .ok ((paramNames ts).foldl addName order) := by
  induction ts generalizing order with
  | nil => rfl
  | cons t ts ih =>
      simp only [List.foldlM_cons, extractAct, paramNames, List.filterMap_cons]
      cases t.name? with
      | none => exact ih order
      | some name => exact ih (addName order name)

theorem foldlM_stripAct (ts : List Lexeme) (out : Text) :
    ts.foldlM stripAct out = .ok (out ++ codeText ts) := by
  induction ts generalizing out with
  | nil =>
      rw [codeText, List.filterMap_nil, List.append_nil]
      rfl
  | cons t ts ih =>
      simp only [List.foldlM_cons, stripAct, codeText, List.filterMap_cons]
      cases t.rune? with
      | none => exact ih out
      | some c =>
          refine (ih (out ++ [c])).trans ?_
          rw [List.append_assoc]
          rfl

/-- A template is scanned for its names exactly when it lexes. -/
theorem extract_eq_some_iff {q : Text} {d : Dialect} {names : List Text} :
    extractParamNamesDialect q d = some names ↔
      ∃ ts, Lexes (lexeme (publishForms d) true) q ts ∧
        names = firstOccurrences (paramNames ts) := by
  rw [extractParamNamesDialect, extractBody_eq]
  exact scan_eq_some_iff (lexeme_consuming (publishForms_proper d) true) fun ts => foldlM_extractAct ts []

theorem strip_eq_some_iff {q : Text} {d : Dialect} {out : Text} :
    stripDialect q d = some out ↔
      ∃ ts, Lexes (lexeme (publishForms d) false) q ts ∧ out = codeText ts := by
  rw [stripDialect, stripBody_eq]
  exact scan_eq_some_iff (lexeme_consuming (publishForms_proper d) false) fun ts => foldlM_stripAct ts []

/-- The SQL text of a list of lexemes, after `n` placeholders. -/
def sqlText (ph : Placeholder) : Nat → List Lexeme → Text
  | _, [] => []
  | n, .param _ :: ts => ph (n + 1) ++ sqlText ph (n + 1) ts
  | n, t :: ts => t.text ++ sqlText ph n ts

theorem paramNames_cons_param (name : Text) (ts : List Lexeme) :
    paramNames (.param name :: ts) = name :: paramNames ts := rfl

theorem paramNames_cons_none {t : Lexeme} (ht : t.name? = none) (ts : List Lexeme) :
    paramNames (t :: ts) = paramNames ts :=
  List.filterMap_cons_none ht

theorem sqlText_cons_none (ph : Placeholder) (n : Nat) {t : Lexeme} (ht : t.name? = none)
    (ts : List Lexeme) : sqlText ph n (t :: ts) = t.text ++ sqlText ph n ts := by
  cases t <;> first | rfl | cases ht

/-- The first parameter of a list of lexemes that has no value. -/
def firstMissing {α : Type*} (params : Table α) (ts : List Lexeme) : Option Text :=
  (paramNames ts).find? fun name => (params name).isNone

theorem firstMissing_eq_none_iff {α : Type*} {params : Table α} {ts : List Lexeme} :
    firstMissing params ts = none ↔ ∀ name ∈ paramNames ts, params name ≠ none := by
  simp [firstMissing]

section Binding

variable {α : Type*} (params : Table α) (ph : Placeholder)

/-- The binding of a list of lexemes: the error of the first parameter without
a value, or the SQL text and the values in order. -/
def bindingOf (ts : List Lexeme) : Binding α :=
  match firstMissing params ts with
  | some name => .error (missingValue name)
  | none => .ok (sqlText ph 0 ts, (paramNames ts).filterMap params)

/-- The binder copies a lexeme that names no parameter. -/
theorem bindAct_copy (b : Bound α) {t : Lexeme} (ht : t.name? = none) :
    bindAct params ph b t = .ok (b.copy t.text) := by
  cases t <;> first | rfl | cases ht

theorem foldlM_bindAct (ts : List Lexeme) (b : Bound α) :
    ts.foldlM (bindAct params ph) b =
      match firstMissing params ts with
      | some name => .error (.error (missingValue name))
      | none => .ok
          { out := b.out ++ sqlText ph b.n ts
            args := b.args ++ (paramNames ts).filterMap params
            n := b.n + (paramNames ts).length } := by
  induction ts generalizing b with
  | nil => simp [firstMissing, paramNames, sqlText]; rfl
  | cons t ts ih =>
      rw [List.foldlM_cons]
      cases t using Lexeme.cases_name with
      | copied t ht =>
          rw [bindAct_copy params ph b ht]
          refine (ih (b.copy t.text)).trans ?_
          simp [Bound.copy, firstMissing, paramNames_cons_none ht, sqlText_cons_none ph _ ht]
      | param name =>
          cases hv : params name with
          | none => simp [bindAct, hv, firstMissing, paramNames_cons_param]; rfl
          | some v =>
              simp only [bindAct, hv]
              refine (ih (b.bind ph v)).trans ?_
              simp [Bound.bind, firstMissing, paramNames_cons_param, hv, sqlText, Nat.add_assoc,
                Nat.add_comm 1]

/-- The binder's result on a template that lexes. -/
theorem bindDialect_eq {d : Dialect} {q : Text} {ts : List Lexeme}
    (h : Lexes (lexeme (bindForms d) true) q ts) :
    bindDialect params ph d q = some (bindingOf params ph ts) := by
  have hc := lexeme_consuming (bindForms_proper d) true
  have hf := foldlM_bindAct params ph ts {}
  rw [bindDialect, bindDialectBody_eq]
  refine (scan_advances hc).exec_eq_some_iff.mpr ?_
  unfold bindingOf
  cases hm : firstMissing params ts with
  | none =>
      rw [hm] at hf
      exact scan_returns_finish hc h hf
  | some name =>
      rw [hm] at hf
      exact scan_returns_error hc h hf

/-- The binder binds a template exactly when it lexes and every parameter has a value. -/
theorem bindDialect_eq_ok_iff {d : Dialect} {q sql : Text} {args : List α} :
    bindDialect params ph d q = some (.ok (sql, args)) ↔
      ∃ ts, Lexes (lexeme (bindForms d) true) q ts ∧
        (∀ name ∈ paramNames ts, params name ≠ none) ∧
        sql = sqlText ph 0 ts ∧ args = (paramNames ts).filterMap params := by
  have hc := lexeme_consuming (bindForms_proper d) true
  constructor
  · intro h
    rw [bindDialect, bindDialectBody_eq] at h
    rcases scan_returns_inv hc ((scan_advances hc).exec_eq_some_iff.mp h) with
      ⟨ts, b, hts, hf, hr⟩ | ⟨ts, _, _, hf⟩
    · rw [foldlM_bindAct] at hf
      cases hm : firstMissing params ts with
      | some name => simp [hm] at hf
      | none =>
          rw [hm] at hf
          cases hf
          cases hr
          exact ⟨ts, hts, firstMissing_eq_none_iff.mp hm, rfl, rfl⟩
    · rw [foldlM_bindAct] at hf
      cases hm : firstMissing params ts <;> simp [hm] at hf
  · rintro ⟨ts, hts, hvalues, rfl, rfl⟩
    rw [bindDialect_eq params ph hts, bindingOf, firstMissing_eq_none_iff.mpr hvalues]

end Binding

theorem bindForms_other : bindForms .other = plainForms := by
  funext s
  simp [bindForms, undollaredForms, plainForms]

/-- Without forms of a dialect every template lexes. -/
theorem exists_lexes_plain (q : Text) : ∃ ts, Lexes (lexeme plainForms true) q ts := by
  refine exists_lexes (lexeme_consuming plainForms_proper true) (fun s hs hl => ?_) q
  cases s with
  | nil => exact hs rfl
  | cons c rest => cases lexeme_eq_none_iff.mp hl

/-- `Bind` never hangs, and reads the template as it stands. -/
theorem bind_eq {α : Type*} (params : Table α) (ph : Placeholder) {q : Text} {ts : List Lexeme}
    (h : Lexes (lexeme plainForms true) q ts) :
    bind q params ph = some (bindingOf params ph ts) := by
  rw [← bindForms_other] at h
  exact bindDialect_eq params ph h

end DDAG.Connectors
