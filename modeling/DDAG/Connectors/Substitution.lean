import DDAG.Connectors.Lexemes

/-!
# What the binder alters

`bindDialect` copies the template but for its parameters.  The lexemes of a
template split into *pieces*: those before the first parameter, and those after
each parameter up to the next one (`pieces`).  The template is the texts of the
pieces with the parameters between them, and the SQL text is the same texts with
the placeholders between them.  The pieces are made of whole lexemes, so a quoted
region or a comment is copied as it stands, whether it is closed or not.

The values of the parameters do not occur in the SQL text: two tables with the
same keys give the same text.
-/

namespace DDAG.Connectors

open Machine

/-- The lexemes before the first parameter, and each parameter with the lexemes up to the
next one. -/
def pieces : List Lexeme → List Lexeme × List (Text × List Lexeme)
  | [] => ([], [])
  | .param name :: ts => ([], (name, (pieces ts).1) :: (pieces ts).2)
  | t :: ts => (t :: (pieces ts).1, (pieces ts).2)

theorem pieces_cons_none {t : Lexeme} (ht : t.name? = none) (ts : List Lexeme) :
    pieces (t :: ts) = (t :: (pieces ts).1, (pieces ts).2) := by
  cases t with
  | param name => cases ht
  | region text => rfl
  | cast => rfl
  | rune c => rfl

/-- A property of lists of lexemes holds if a parameter and any other lexeme in front of a list
keep it. -/
theorem lexemes_induction {P : List Lexeme → Prop} (hnil : P [])
    (hparam : ∀ name ts, P ts → P (.param name :: ts))
    (hother : ∀ t ts, t.name? = none → P ts → P (t :: ts)) (ts : List Lexeme) : P ts := by
  induction ts with
  | nil => exact hnil
  | cons t ts ih =>
      cases t with
      | param name => exact hparam name ts ih
      | region text => exact hother _ ts rfl ih
      | cast => exact hother _ ts rfl ih
      | rune c => exact hother _ ts rfl ih

theorem pieces_join (ts : List Lexeme) :
    (pieces ts).1 ++ (pieces ts).2.flatMap (fun p => .param p.1 :: p.2) = ts := by
  induction ts using lexemes_induction with
  | hnil => rfl
  | hparam name ts ih =>
      rw [pieces, List.flatMap_cons, List.cons_append, List.nil_append, ih]
  | hother t ts ht ih => rw [pieces_cons_none ht, List.cons_append, ih]

theorem paramNames_pieces (ts : List Lexeme) :
    paramNames (pieces ts).1 = [] ∧ ∀ p ∈ (pieces ts).2, paramNames p.2 = [] := by
  induction ts using lexemes_induction with
  | hnil => exact ⟨rfl, fun _ hp => absurd hp List.not_mem_nil⟩
  | hparam name ts ih =>
      refine ⟨rfl, fun p hp => ?_⟩
      rcases List.mem_cons.mp hp with rfl | hp
      · exact ih.1
      · exact ih.2 p hp
  | hother t ts ht ih =>
      rw [pieces_cons_none ht]
      exact ⟨(paramNames_cons_none ht _).trans ih.1, ih.2⟩

theorem paramNames_eq_pieces (ts : List Lexeme) : paramNames ts = (pieces ts).2.map Prod.fst := by
  induction ts using lexemes_induction with
  | hnil => rfl
  | hparam name ts ih => rw [paramNames_cons_param, ih, pieces, List.map_cons]
  | hother t ts ht ih => rw [paramNames_cons_none ht, ih, pieces_cons_none ht]

theorem textOf_eq_pieces (ts : List Lexeme) :
    textOf ts = textOf (pieces ts).1 ++ (pieces ts).2.flatMap fun p => ':' :: p.1 ++ textOf p.2 := by
  conv_lhs => rw [← pieces_join ts]
  simp only [textOf, List.flatMap_append, List.flatMap_assoc, List.flatMap_cons, Lexeme.text]

/-- The SQL text is the pieces with the placeholders between them. -/
theorem sqlText_eq_pieces (ph : Placeholder) (n : Nat) (ts : List Lexeme) :
    sqlText ph n ts = textOf (pieces ts).1 ++
      ((pieces ts).2.zipIdx (n + 1)).flatMap fun p => ph p.2 ++ textOf p.1.2 := by
  induction ts using lexemes_induction generalizing n with
  | hnil => rfl
  | hparam name ts ih =>
      rw [sqlText, ih (n + 1), pieces, List.zipIdx_cons, List.flatMap_cons, List.append_assoc]
      rfl
  | hother t ts ht ih =>
      rw [sqlText_cons_none ph n ht, ih n, pieces_cons_none ht, textOf, textOf, List.flatMap_cons,
        List.append_assoc]

theorem filterMap_values {α : Type*} {params : Table α} {names : List Text}
    (h : ∀ name ∈ names, params name ≠ none) :
    (names.filterMap params).map some = names.map params := by
  induction names with
  | nil => rfl
  | cons name names ih =>
      obtain ⟨v, hv⟩ := Option.ne_none_iff_exists'.mp (h name List.mem_cons_self)
      have hrest := ih fun x hx => h x (List.mem_cons_of_mem name hx)
      rw [List.filterMap_cons_some hv, List.map_cons, List.map_cons, hrest, hv]

/-- The binding of a template is a substitution: the template is a first piece followed by
parameters and pieces, the SQL text has the `i`-th placeholder for the `i`-th parameter, and the
arguments are their values.  The pieces are made of the lexemes the dialect reads, none of them
a parameter. -/
structure Substitution {α : Type*} (params : Table α) (ph : Placeholder) (d : Dialect)
    (template sql : Text) (args : List α) (first : List Lexeme)
    (rest : List (Text × List Lexeme)) : Prop where
  lexes : Lexes (lexeme (bindForms d) true) template
    (first ++ rest.flatMap fun p => .param p.1 :: p.2)
  first_plain : paramNames first = []
  rest_plain : ∀ p ∈ rest, paramNames p.2 = []
  names : ∀ p ∈ rest, IsName p.1
  template_eq : template = textOf first ++ rest.flatMap fun p => ':' :: p.1 ++ textOf p.2
  sql_eq : sql = textOf first ++ (rest.zipIdx 1).flatMap fun p => ph p.2 ++ textOf p.1.2
  args_eq : args.map some = rest.map fun p => params p.1

section

variable {α : Type*} {params : Table α} {ph : Placeholder} {d : Dialect} {q sql : Text}
  {args : List α}

/-- The pieces of a template that lexes and whose parameters have values are a substitution. -/
theorem substitution_of_lexes {ts : List Lexeme} (hts : Lexes (lexeme (bindForms d) true) q ts)
    (hvalues : ∀ name ∈ paramNames ts, params name ≠ none) :
    Substitution params ph d q (sqlText ph 0 ts) ((paramNames ts).filterMap params) (pieces ts).1
      (pieces ts).2 := by
  have htext : textOf ts = q := lexes_text (bindForms_proper d) hts
  constructor
  case lexes =>
    rw [pieces_join]
    exact hts
  case first_plain => exact (paramNames_pieces ts).1
  case rest_plain => exact (paramNames_pieces ts).2
  case names =>
    intro p hp
    refine lexesTo_names hts p.1 ?_
    rw [paramNames_eq_pieces]
    exact List.mem_map_of_mem hp
  case template_eq => exact htext.symm.trans (textOf_eq_pieces ts)
  case sql_eq => exact sqlText_eq_pieces ph 0 ts
  case args_eq =>
    rw [filterMap_values hvalues, paramNames_eq_pieces, List.map_map]
    rfl

theorem exists_substitution (h : bindDialect params ph d q = some (.ok (sql, args))) :
    ∃ first rest, Substitution params ph d q sql args first rest := by
  obtain ⟨ts, hts, hvalues, rfl, rfl⟩ := (bindDialect_eq_ok_iff params ph).mp h
  exact ⟨(pieces ts).1, (pieces ts).2, substitution_of_lexes hts hvalues⟩

/-- The SQL text depends on which parameters have a value, not on the values. -/
theorem bindDialect_same_text (h : bindDialect params ph d q = some (.ok (sql, args)))
    {params' : Table α} (hkeys : ∀ x, (params' x).isSome = (params x).isSome) :
    ∃ args', bindDialect params' ph d q = some (.ok (sql, args')) := by
  obtain ⟨ts, hts, hvalues, rfl, rfl⟩ := (bindDialect_eq_ok_iff params ph).mp h
  refine ⟨(paramNames ts).filterMap params', (bindDialect_eq_ok_iff params' ph).mpr
    ⟨ts, hts, fun name hname => ?_, rfl, rfl⟩⟩
  rw [← Option.isSome_iff_ne_none, hkeys]
  exact Option.isSome_iff_ne_none.mpr (hvalues name hname)

/-- A template that binds is copied but for its parameters, whatever their values. -/
theorem bindDialect_substitutes (h : bindDialect params ph d q = some (.ok (sql, args))) :
    (∃ first rest, Substitution params ph d q sql args first rest) ∧
      ∀ params' : Table α, (∀ x, (params' x).isSome = (params x).isSome) →
        ∃ args', bindDialect params' ph d q = some (.ok (sql, args')) :=
  ⟨exists_substitution h, fun _ hkeys => bindDialect_same_text h hkeys⟩

end

/-- A parameter between a quoted region and an unclosed comment. -/
theorem bindDialect_substitutes_quoted :
    (∃ first rest, Substitution (fun x => if x = ['a'] then some 7 else none) placeholderDollar
        .postgres "':a' :a/* :a".toList "':a' $1/* :a".toList [7] first rest) ∧
      ∀ params' : Table Nat, (∀ x, (params' x).isSome = (if x = ['a'] then some 7 else none).isSome) →
        ∃ args', bindDialect params' placeholderDollar .postgres "':a' :a/* :a".toList =
          some (.ok ("':a' $1/* :a".toList, args')) :=
  bindDialect_substitutes (by decide)

end DDAG.Connectors
