import DDAG.Gateway.Clauses
import Mathlib.Data.List.Forall2

/-!
# What the filters of a request add

The loop over the filters, as a list of contributions: a filter without a value adds nothing,
one with a value adds a clause around the references of its own parameters
(`Contribution`).

* The parameters have different names, although `a` and `a.b`, or two filters of one name, count
  their parameters by prefixes (`Numbered.fresh`).  So no value replaces another
  (`filter_values_kept`).
* Two requests that look alike get one SQL text and one list of names, and differ in the values
  bound to them (`values_only_bound`).
* A value is bound as it stands only if nothing in it is read as an operator
  (`bare_value_bound_iff`): `12:30:00` asks for the operator `12`.
-/

namespace DDAG.Gateway

open Models Fallible

/-! ## The names of the parameters -/

theorem Params.names_append (ps es : Params) : (ps ++ es).names = ps.names ++ es.names :=
  List.map_append

/-- The name of the `n`-th parameter of a base. -/
def paramKey (base : Text) (n : Nat) : Text := base ++ '_' :: Strings.decimal n

theorem underscore_not_mem_decimal (n : Nat) : '_' ∉ Strings.decimal n := by
  intro hmem
  have hdigit : '_'.isDigit = true := Strings.isDigit_decimal hmem
  cases hdigit

/-- The last underscore separates the base from the number. -/
theorem paramKey_inj {base base' : Text} {n n' : Nat} (h : paramKey base n = paramKey base' n') :
    base = base' ∧ n = n' := by
  obtain ⟨hbase, hn⟩ := Strings.append_sep_inj_last (underscore_not_mem_decimal n)
    (underscore_not_mem_decimal n') h
  exact ⟨hbase, Strings.decimal_inj hn⟩

theorem paramsForPrefix_append (ps es : Params) (base : Text) :
    paramsForPrefix (ps ++ es) base = paramsForPrefix ps base + paramsForPrefix es base := by
  rw [paramsForPrefix, List.filter_append, List.length_append]
  rfl

theorem paramsForPrefix_paramKey (base : Text) (n : Nat) (v : Value) :
    paramsForPrefix [(paramKey base n, v)] base = 1 := by
  have hstart : Strings.hasPrefix (paramKey base n) (base ++ ['_']) = true :=
    List.isPrefixOf_iff_prefix.mpr ⟨Strings.decimal n, List.append_assoc base ['_'] _⟩
  simp [paramsForPrefix, hstart]

/-- The names are different, and each has a number below the count of its base. -/
structure Numbered (ps : Params) : Prop where
  nodup : ps.names.Nodup
  counted : ∀ k ∈ ps.names, ∃ base n, k = paramKey base n ∧ n < paramsForPrefix ps base

theorem numbered_nil : Numbered [] where
  nodup := List.nodup_nil
  counted := fun _ hk => absurd hk List.not_mem_nil

section Numbered

variable {ps : Params} (h : Numbered ps) (base : Text)

include h

theorem Numbered.fresh : paramKey base (paramsForPrefix ps base) ∉ ps.names := by
  intro hmem
  obtain ⟨base', n, heq, hlt⟩ := h.counted _ hmem
  obtain ⟨rfl, rfl⟩ := paramKey_inj heq
  exact absurd hlt (Nat.lt_irrefl _)

theorem addParam_eq (v : Value) :
    addParam base ps v = (':' :: paramKey base (paramsForPrefix ps base),
      ps ++ [(paramKey base (paramsForPrefix ps base), v)]) := by
  have hnone : ¬ ps.any (·.1 = paramKey base (paramsForPrefix ps base)) = true :=
    mt any_name_iff.mp (h.fresh base)
  show (_, Params.set ps (paramKey base (paramsForPrefix ps base)) v) = _
  rw [Params.set, if_neg hnone]
  rfl

theorem Numbered.add (v : Value) :
    Numbered (ps ++ [(paramKey base (paramsForPrefix ps base), v)]) := by
  have hnames : (ps ++ [(paramKey base (paramsForPrefix ps base), v)]).names =
      ps.names ++ [paramKey base (paramsForPrefix ps base)] := List.map_append
  constructor
  case nodup =>
    rw [hnames, ← List.concat_eq_append]
    exact h.nodup.concat (h.fresh base)
  case counted =>
    intro k hk
    rw [hnames] at hk
    rcases List.mem_append.mp hk with hold | hnew
    · obtain ⟨base', n, heq, hlt⟩ := h.counted k hold
      refine ⟨base', n, heq, ?_⟩
      rw [paramsForPrefix_append]
      omega
    · refine ⟨base, _, List.mem_singleton.mp hnew, ?_⟩
      rw [paramsForPrefix_append, paramsForPrefix_paramKey]
      omega

/-- The values of a filter get the next numbers of its base. -/
theorem addParams_eq (vs : List Text) :
    ∃ es : Params, addParams base ps vs = (es.names.map (':' :: ·), ps ++ es) ∧
      es.map Prod.snd = vs.map .text ∧ (∀ k ∈ es.names, ∃ n, k = paramKey base n) ∧
      Numbered (ps ++ es) := by
  induction vs generalizing ps with
  | nil =>
      refine ⟨[], by rw [List.append_nil]; rfl, rfl, fun _ hk => absurd hk List.not_mem_nil, ?_⟩
      rwa [List.append_nil]
  | cons v vs ih =>
      obtain ⟨es, heq, hvalues, hkeys, hnum⟩ := ih (h.add base (.text v))
      refine ⟨(paramKey base (paramsForPrefix ps base), .text v) :: es, ?_, ?_, ?_, ?_⟩
      · rw [addParams, addParam_eq h, heq, List.append_assoc]
        rfl
      · rw [List.map_cons, hvalues]
        rfl
      · intro k hk
        rcases List.mem_cons.mp hk with rfl | hk
        · exact ⟨_, rfl⟩
        · exact hkeys k hk
      · rwa [List.append_assoc] at hnum

end Numbered

/-- The parameters as the binder looks them up. -/
def Params.table (ps : Params) : Table Value := fun k => ps.lookup k

theorem table_of_mem {ps : Params} (hnodup : ps.names.Nodup) {e : Text × Value} (he : e ∈ ps) :
    ps.table e.1 = some e.2 := by
  induction ps with
  | nil => cases he
  | cons p ps ih =>
      obtain ⟨hfresh, hrest⟩ := List.nodup_cons.mp hnodup
      rcases List.mem_cons.mp he with rfl | he
      · exact List.lookup_cons_self
      · have hne : e.1 ≠ p.1 := by
          intro heq
          exact hfresh (heq ▸ List.mem_map_of_mem he)
        rw [Params.table, List.lookup_cons, beq_false_of_ne hne]
        exact ih hrest he

/-! ## Contributions -/

def operatorNamed (op : Text) : Option Operator :=
  [.eq, .neq, .like, .gt, .gte, .lt, .lte, .between, .within, .isnull].find? fun o => o.name = op

theorem operatorNamed_name (o : Operator) : operatorNamed o.name = some o := by
  cases o <;> rfl

/-- The values a filter takes from the request: the value as it stands, the value of a `like`
between percent signs, or the parts of a list. -/
def derivedValues (query : Values) (f : FilterConfig) : List Text :=
  match query.first? f.name with
  | none => []
  | some v =>
      match operatorNamed (operand v).1 with
      | none => []
      | some o => o.values (operand v).2

theorem derivedValues_eq {query : Values} {f : FilterConfig} {v : Text} {o : Operator}
    (hv : query.first? f.name = some v) (ho : (operand v).1 = o.name) :
    derivedValues query f = o.values (operand v).2 := by
  simp only [derivedValues, hv, ho, operatorNamed_name]

theorem Operator.clause_ne_nil (f : FilterConfig) (truth : Bool) (refs : List Text) (o : Operator) :
    o.clause f truth refs ≠ [] := by
  cases o <;> cases truth <;> simp [Operator.clause, comparison]

/-- What a filter adds: nothing without a value, and otherwise a clause around the references of
its own parameters. -/
inductive Contribution (query : Values) (f : FilterConfig) : Option Text → Params → Prop
  | absent (hv : query.first? f.name = none) : Contribution query f none []
  | present {v : Text} {o : Operator} {es : Params} (hv : query.first? f.name = some v)
      (ho : (operand v).1 = o.name) (hvalues : es.map Prod.snd = (o.values (operand v).2).map .text)
      (hkeys : ∀ k ∈ es.names, ∃ n, k = paramKey (filterBase f) n) :
      Contribution query f
        (some (o.clause f (isTrue (operand v).2) (es.names.map (':' :: ·)))) es

section Contributions

variable {query : Values} {f : FilterConfig} {fs : List FilterConfig} {acc acc' : List Text × Params}

theorem Contribution.values {clause : Option Text} {es : Params} (h : Contribution query f clause es) :
    es.map Prod.snd = (derivedValues query f).map .text := by
  cases h with
  | absent hv => simp only [derivedValues, hv, List.map_nil]
  | present hv ho hvalues _ => rw [derivedValues_eq hv ho, hvalues]

/-- One filter adds its contribution. -/
theorem contribution_of_filterStep (hnum : Numbered acc.2) (h : filterStep query acc f = .ok acc') :
    Numbered acc'.2 ∧ ∃ clause es, Contribution query f clause es ∧
      acc' = (acc.1 ++ clause.toList, acc.2 ++ es) := by
  rcases filterStep_eq h with ⟨hv, rfl⟩ | ⟨v, o, r, hv, ho, hclause, rfl⟩
  · refine ⟨hnum, none, [], .absent hv, ?_⟩
    rw [Option.toList_none, List.append_nil, List.append_nil]
  · obtain ⟨es, heq, hes, hkeys, hnum'⟩ :=
      addParams_eq hnum (filterBase f) (o.values (operand v).2)
    have htext := hclause.text
    have hparams := hclause.params
    rw [heq] at htext hparams
    have hne : r.1 ≠ [] := by
      rw [htext]
      exact Operator.clause_ne_nil _ _ _ o
    rw [if_neg hne, htext, hparams]
    exact ⟨hnum', _, es, .present hv ho hes hkeys, rfl⟩

/-- The whole loop adds the contributions of its filters. -/
theorem contributions_of_filters (hnum : Numbered acc.2)
    (h : fs.foldlM (filterStep query) acc = .ok acc') :
    Numbered acc'.2 ∧ ∃ adds : List (Option Text × Params),
      List.Forall₂ (fun f a => Contribution query f a.1 a.2) fs adds ∧
      acc' = (acc.1 ++ adds.flatMap fun a => a.1.toList, acc.2 ++ adds.flatMap Prod.snd) := by
  induction fs generalizing acc with
  | nil =>
      cases h
      exact ⟨hnum, [], .nil, by simp⟩
  | cons f fs ih =>
      rw [List.foldlM_cons, bind_eq_ok] at h
      obtain ⟨acc₁, hfirst, hrest⟩ := h
      obtain ⟨hnum₁, clause, es, hadd, rfl⟩ := contribution_of_filterStep hnum hfirst
      obtain ⟨hnum', adds, hadds, rfl⟩ := ih hnum₁ hrest
      exact ⟨hnum', (clause, es) :: adds, .cons hadd hadds, by simp⟩

/-- Every filter has its contribution among those of the loop. -/
theorem contribution_of_mem {adds : List (Option Text × Params)}
    (h : List.Forall₂ (fun f a => Contribution query f a.1 a.2) fs adds) (hf : f ∈ fs) :
    ∃ a ∈ adds, Contribution query f a.1 a.2 := by
  induction h with
  | nil => cases hf
  | cons hadd _ ih =>
      rcases List.mem_cons.mp hf with rfl | hf
      · exact ⟨_, List.mem_cons_self, hadd⟩
      · obtain ⟨a, ha, hcontributes⟩ := ih hf
        exact ⟨a, List.mem_cons_of_mem _ ha, hcontributes⟩

theorem values_of_contributions {adds : List (Option Text × Params)}
    (h : List.Forall₂ (fun f a => Contribution query f a.1 a.2) fs adds) :
    (adds.flatMap Prod.snd).map Prod.snd = (fs.flatMap (derivedValues query)).map .text := by
  induction h with
  | nil => rfl
  | cons hadd _ ih =>
      rw [List.flatMap_cons, List.flatMap_cons, List.map_append, List.map_append, hadd.values, ih]

end Contributions

theorem contributions_of_where {c : QueryBuilderConfig} {query : Values} {clauses : List Text} {ps : Params}
    (h : whereClauses c query = .ok (clauses, ps)) :
    Numbered ps ∧ ∃ adds : List (Option Text × Params),
      List.Forall₂ (fun f a => Contribution query f a.1 a.2) c.filters adds ∧
      clauses = (adds.flatMap fun a => a.1.toList) ∧ ps = adds.flatMap Prod.snd := by
  obtain ⟨_, _, hfold⟩ := bind_eq_ok.mp h
  obtain ⟨hnum, adds, hadds, heq⟩ := contributions_of_filters numbered_nil hfold
  obtain ⟨rfl, rfl⟩ := Prod.mk.inj heq
  exact ⟨hnum, adds, hadds, rfl, rfl⟩

/-! ## No value replaces another -/

/-- Every value that a filter adds has a name that is not there yet, and at the end there is one
parameter for each reference in the clauses, with the value that was added for it. -/
theorem filter_values_kept {c : QueryBuilderConfig} {query : Values} {clauses : List Text} {ps : Params}
    (h : whereClauses c query = .ok (clauses, ps)) :
    (∀ before f after acc, c.filters = before ++ f :: after →
      before.foldlM (filterStep query) ([], []) = .ok acc →
      ∀ us v vs, derivedValues query f = us ++ v :: vs →
        let soFar := (addParams (filterBase f) acc.2 us).2
        ∃ key, key ∉ soFar.names ∧
          addParam (filterBase f) soFar (.text v) = (':' :: key, soFar ++ [(key, .text v)])) ∧
    ps.names.Nodup ∧ ∃ adds : List (Option Text × Params),
      List.Forall₂ (fun f a => Contribution query f a.1 a.2) c.filters adds ∧
      clauses = (adds.flatMap fun a => a.1.toList) ∧ ps = adds.flatMap Prod.snd := by
  obtain ⟨hnum, hadds⟩ := contributions_of_where h
  refine ⟨?_, hnum.nodup, hadds⟩
  intro before f after acc _ hbefore us v vs _ soFar
  obtain ⟨hnum', -⟩ := contributions_of_filters numbered_nil hbefore
  obtain ⟨es, heq, -, -, hnum''⟩ := addParams_eq hnum' (filterBase f) us
  have hsoFar : soFar = acc.2 ++ es := congrArg Prod.snd heq
  rw [hsoFar]
  exact ⟨_, hnum''.fresh (filterBase f), addParam_eq hnum'' (filterBase f) (.text v)⟩

/-- Filters on a site, its parent and a second column of the site. -/
def nestedConfig : QueryBuilderConfig where
  baseTable := "sites".toList
  select := ["id".toList]
  joins := []
  groupBy := []
  filters :=
    [{ name := "site".toList, column := "name".toList, operators := ["in".toList] },
      { name := "site.0".toList, column := "parent".toList, operators := [] },
      { name := "site".toList, column := "alias".toList, operators := ["in".toList] }]
  sortableColumns := []
  defaultSort := []

theorem nodup_oneValue (name v : Text) : ([(name, [v])].map Prod.fst).Nodup := List.nodup_singleton name

def oneValue (name v : String) : Values where
  entries := [(name.toList, [v.toList])]
  nodup := nodup_oneValue name.toList v.toList

def twoValues (name v name' v' : String) (hne : name.toList ≠ name'.toList) : Values where
  entries := [(name.toList, [v.toList]), (name'.toList, [v'.toList])]
  nodup := List.nodup_cons.mpr ⟨by simpa using hne, List.nodup_singleton _⟩

/-- Two filters of one name and one between them whose name starts like theirs. -/
theorem nested_names_kept :
    ∃ clauses ps, whereClauses nestedConfig
        (twoValues "site" "in:a,b" "site.0" "c" (by decide)) = .ok (clauses, ps) ∧
      ps.length = 5 ∧ ps.names.Nodup := by
  have hwhere : ∃ r, whereClauses nestedConfig
      (twoValues "site" "in:a,b" "site.0" "c" (by decide)) = .ok r ∧ r.2.length = 5 :=
    ⟨_, rfl, rfl⟩
  obtain ⟨⟨clauses, ps⟩, hok, hlen⟩ := hwhere
  exact ⟨clauses, ps, hok, hlen, (filter_values_kept hok).2.1⟩

/-! ## Values are only bound -/

/-- The parameters of a request are the values its filters take from it. -/
theorem values_of_build {c : QueryBuilderConfig} {query : Values} {sql : Text} {ps : Params}
    (h : build c query = .ok (sql, ps)) :
    ps.map Prod.snd = (c.filters.flatMap (derivedValues query)).map .text := by
  obtain ⟨clauses, order, -, hwhere, -, -⟩ := build_eq_ok h
  obtain ⟨-, adds, hadds, -, rfl⟩ := contributions_of_where hwhere
  exact values_of_contributions hadds

/-- Two requests that give the same filters values of the same shapes, and ask for the same order,
get one SQL text with the same parameters, and differ in the values bound to them only. -/
theorem values_only_bound {c : QueryBuilderConfig} {query query' : Values}
    (hshape : SameShape c query query') {sql sql' : Text} {ps ps' : Params}
    (h : build c query = .ok (sql, ps)) (h' : build c query' = .ok (sql', ps')) :
    sql = sql' ∧ ps.names = ps'.names ∧
      ps.map Prod.snd = (c.filters.flatMap (derivedValues query)).map .text ∧
      ps'.map Prod.snd = (c.filters.flatMap (derivedValues query')).map .text := by
  obtain ⟨clauses, order, -, hwhere, -, -⟩ := build_eq_ok h
  obtain ⟨clauses', order', -, hwhere', -, -⟩ := build_eq_ok h'
  have hsame := whereClauses_shape hshape hwhere hwhere'
  exact ⟨build_shape hshape h h', hsame.2, values_of_build h, values_of_build h'⟩

/-- A value with SQL in it gets the text of any other value. -/
theorem injected_value_bound :
    ∃ sql sql' ps ps', build nestedConfig (oneValue "site" "in:a,b") = .ok (sql, ps) ∧
      build nestedConfig (oneValue "site" "in:a,b'); DROP TABLE sites; --") = .ok (sql', ps') ∧
      sql = sql' := by
  have hshape : SameShape nestedConfig (oneValue "site" "in:a,b")
      (oneValue "site" "in:a,b'); DROP TABLE sites; --") :=
    ⟨by decide +kernel, by decide +kernel⟩
  have hbuild : ∃ r, build nestedConfig (oneValue "site" "in:a,b") = .ok r := ⟨_, rfl⟩
  have hbuild' : ∃ r, build nestedConfig (oneValue "site" "in:a,b'); DROP TABLE sites; --") = .ok r :=
    ⟨_, rfl⟩
  obtain ⟨⟨sql, ps⟩, h⟩ := hbuild
  obtain ⟨⟨sql', ps'⟩, h'⟩ := hbuild'
  exact ⟨sql, sql', ps, ps', h, h', (values_only_bound hshape h h').1⟩

/-! ## Values without an operator -/

def NamesOperator (v : Text) : Prop :=
  ∃ op raw, Strings.cut v ':' = some (op, raw) ∧
    (operatorNamed (Strings.toLower (Strings.trimSpace op))).isSome = true

/-- There is nothing but blanks before the first colon, or no colon. -/
def Unmarked (v : Text) : Prop := ∀ op raw, Strings.cut v ':' = some (op, raw) → Strings.trimSpace op = []

/-- The request is accepted, with a clause that compares the column of the filter with this
value. -/
def ComparesWith (c : QueryBuilderConfig) (query : Values) (f : FilterConfig) (v : Text) : Prop :=
  ∃ clauses ps key, whereClauses c query = .ok (clauses, ps) ∧
    f.column ++ " = :".toList ++ key ∈ clauses ∧ ps.table key = some (.text v)

/-- The value the request has for the filter is accepted, whatever comes before it. -/
def Accepts (query : Values) (f : FilterConfig) : Prop :=
  ∀ acc, ∃ acc', filterStep query acc f = .ok acc'

theorem unmarked_iff {v : Text} : Unmarked v ↔ (splitOperator v).1 = [] := by
  unfold Unmarked splitOperator
  cases hcut : Strings.cut v ':' with
  | none => simp
  | some p =>
      obtain ⟨op, raw⟩ := p
      simp [Strings.toLower]

section Bare

variable {query : Values} {f : FilterConfig} {v : Text}

/-- A value without an operator is compared for equality, if that is allowed. -/
theorem filterStep_unmarked (hv : query.first? f.name = some v) (hmark : Unmarked v)
    (acc : List Text × Params) :
    filterStep query acc f =
      if operatorAllowed f "eq".toList then
        .ok (acc.1 ++ [(compareClause f " = " v acc.2).1], (compareClause f " = " v acc.2).2)
      else .error ("filter operator ".toList ++ Strings.quote "eq".toList ++
        " is not allowed for ".toList ++ Strings.quote f.name) := by
  have hop := unmarked_iff.mp hmark
  have hne : (compareClause f " = " v acc.2).1 ≠ [] := by simp [compareClause]
  unfold filterStep
  rw [hv]
  simp only [hop, if_true]
  cases operatorAllowed f "eq".toList with
  | false => rfl
  | true =>
      show (do
        let r ← buildWhereClause f "eq".toList v acc.2
        return (if r.1 = [] then acc.1 else acc.1 ++ [r.1], r.2) : Except Text _) = _
      rw [buildWhereClause, if_pos rfl]
      simp only [if_true]
      exact congrArg Except.ok (Prod.ext (if_neg hne) rfl)

/-- A value that is accepted names an operator, or nothing stands before its colon. -/
theorem unmarked_of_filterStep (hv : query.first? f.name = some v) (hbare : ¬ NamesOperator v)
    {acc acc' : List Text × Params} (h : filterStep query acc f = .ok acc') : Unmarked v := by
  rcases filterStep_eq h with ⟨hnone, -⟩ | ⟨v', o, r, hv', ho, -, -⟩
  · cases hnone.symm.trans hv
  · cases hv'.symm.trans hv
    intro op raw hcut
    by_contra hop
    have hsplit : splitOperator v = (Strings.toLower (Strings.trimSpace op), raw) := by
      rw [splitOperator, hcut]
    have hne : Strings.toLower (Strings.trimSpace op) ≠ [] := by simpa [Strings.toLower] using hop
    rw [operand, hsplit] at ho
    simp only [hne, if_false] at ho
    refine hbare ⟨op, raw, hcut, ?_⟩
    rw [ho, operatorNamed_name]
    rfl

/-- The contribution of a filter with an unmarked value is the comparison with it. -/
theorem Contribution.of_unmarked {clause : Option Text} {es : Params} (h : Contribution query f clause es)
    (hv : query.first? f.name = some v) (hmark : Unmarked v) :
    ∃ key, clause = some (f.column ++ " = :".toList ++ key) ∧ es = [(key, .text v)] := by
  cases h with
  | absent hnone => cases hnone.symm.trans hv
  | @present v' o es hv' ho hvalues _ =>
      cases hv'.symm.trans hv
      have hoperand : operand v = ("eq".toList, v) := by
        rw [operand]
        simp only [unmarked_iff.mp hmark, if_true]
      rw [hoperand] at ho hvalues
      obtain rfl : o = .eq := Operator.name_injective ho.symm
      obtain ⟨e, rfl⟩ : ∃ e, es = [e] := by
        have hlen := congrArg List.length hvalues
        rw [List.length_map] at hlen
        exact List.length_eq_one_iff.mp hlen
      obtain ⟨key, value⟩ := e
      cases hvalues
      refine ⟨key, ?_, rfl⟩
      rw [show " = :".toList = " = ".toList ++ [':'] from rfl]
      simp [Operator.clause, comparison, Params.names]

end Bare

/-- A value that names no operator is compared with as it stands, in a request that is otherwise
accepted, exactly if nothing but blanks stands before its first colon and every filter of that
name allows `eq`. -/
theorem bare_value_bound_iff {c : QueryBuilderConfig} {query : Values} {f : FilterConfig} {v : Text}
    (hf : f ∈ c.filters) (hv : query.first? f.name = some v) (hbare : ¬ NamesOperator v)
    (hnames : checkFilterNames c query = .ok ())
    (hothers : ∀ g ∈ c.filters, g.name ≠ f.name → Accepts query g) :
    ComparesWith c query f v ↔
      Unmarked v ∧ ∀ g ∈ c.filters, g.name = f.name → operatorAllowed g "eq".toList = true := by
  constructor
  · rintro ⟨clauses, ps, key, hwhere, -, -⟩
    obtain ⟨_, _, hfold⟩ := bind_eq_ok.mp hwhere
    obtain ⟨acc, acc', hstep⟩ := foldlM_steps hfold f hf
    have hmark := unmarked_of_filterStep hv hbare hstep
    refine ⟨hmark, fun g hg hname => ?_⟩
    obtain ⟨acc, acc', hstep⟩ := foldlM_steps hfold g hg
    rw [filterStep_unmarked (hname ▸ hv) hmark] at hstep
    obtain ⟨hallowed, -⟩ := (ite_eq_ok hstep).resolve_right fun hbad => nomatch hbad.2
    exact hallowed
  · rintro ⟨hmark, hallowed⟩
    have hsteps : ∀ g ∈ c.filters, Accepts query g := by
      intro g hg acc
      by_cases hname : g.name = f.name
      · exact ⟨_, by rw [filterStep_unmarked (hname ▸ hv) hmark, if_pos (hallowed g hg hname)]⟩
      · exact hothers g hg hname acc
    obtain ⟨⟨clauses, ps⟩, hfold⟩ := foldlM_succeeds hsteps ([], [])
    have hwhere : whereClauses c query = .ok (clauses, ps) := bind_eq_ok.mpr ⟨(), hnames, hfold⟩
    obtain ⟨hnum, adds, hadds, rfl, rfl⟩ := contributions_of_where hwhere
    obtain ⟨⟨clause, es⟩, ha, hadd⟩ := contribution_of_mem hadds hf
    obtain ⟨key, rfl, rfl⟩ := hadd.of_unmarked hv hmark
    have hmem : (key, Value.text v) ∈ adds.flatMap Prod.snd :=
      List.mem_flatMap.mpr ⟨_, ha, List.mem_singleton_self _⟩
    refine ⟨_, _, key, hwhere, ?_, table_of_mem hnum.nodup hmem⟩
    exact List.mem_flatMap.mpr ⟨_, ha, by simp⟩

/-- Departures, filtered by their time. -/
def departures : QueryBuilderConfig where
  baseTable := "departures".toList
  select := ["id".toList]
  joins := []
  groupBy := []
  filters := [{ name := "time".toList, column := "leaves_at".toList, operators := ["eq".toList, "gt".toList] }]
  sortableColumns := []
  defaultSort := []

theorem not_namesOperator {v : Text}
    (h : (Strings.cut v ':').all fun p => (operatorNamed (Strings.toLower (Strings.trimSpace p.1))).isNone) :
    ¬ NamesOperator v := by
  rintro ⟨op, raw, hcut, hop⟩
  rw [hcut, Option.all_some, Option.isNone_iff_eq_none] at h
  rw [h] at hop
  cases hop

/-- A colon in front of the value, which is bound with it. -/
theorem colon_first_bound :
    ComparesWith departures (oneValue "time" ":1230")
      { name := "time".toList, column := "leaves_at".toList, operators := ["eq".toList, "gt".toList] }
      ":1230".toList := by
  refine (bare_value_bound_iff (List.mem_singleton_self _) rfl ?_ rfl ?_).mpr ⟨?_, ?_⟩
  · exact not_namesOperator (by decide +kernel)
  · intro g hg hname
    rw [List.mem_singleton.mp hg] at hname
    exact absurd rfl hname
  · rw [unmarked_iff]
    decide +kernel
  · intro g hg _
    rw [List.mem_singleton.mp hg]
    decide +kernel

/-- A time of day is refused for the operator it does not name. -/
theorem time_of_day_refused :
    let f : FilterConfig :=
      { name := "time".toList, column := "leaves_at".toList, operators := ["eq".toList, "gt".toList] }
    validate departures = .ok () ∧ departures.filters = [f] ∧ operatorAllowed f "eq".toList = true ∧
      ¬ NamesOperator "12:30:00".toList ∧
      whereClauses departures (oneValue "time" "12:30:00") =
        .error "filter operator \"12\" is not allowed for \"time\"".toList ∧
      ¬ ComparesWith departures (oneValue "time" "12:30:00") f "12:30:00".toList := by
  have hrefused : whereClauses departures (oneValue "time" "12:30:00") =
      .error "filter operator \"12\" is not allowed for \"time\"".toList := by decide +kernel
  refine ⟨by decide +kernel, rfl, by decide +kernel, not_namesOperator (by decide +kernel), hrefused, ?_⟩
  rintro ⟨clauses, ps, key, hwhere, -, -⟩
  cases hrefused.symm.trans hwhere

end DDAG.Gateway
