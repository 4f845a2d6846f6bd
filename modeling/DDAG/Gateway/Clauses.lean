import DDAG.Gateway.QueryBuilder
import DDAG.Lib.Fallible

/-!
# What the query builder generates

The clause of a filter is a text around the references of the values it binds
(`Operator.clause`, `Operator.values`), and its parameters are those values added
one after the other (`buildWhereClause_eq`).  The name of the next parameter depends
on the names there are and not on their values, so two requests that give every
filter the same shape get the same clauses under the same names
(`whereClauses_shape`) and the same SQL text (`build_shape`).
-/

namespace DDAG.Gateway

open Models Fallible

/-! ## The names of the parameters -/

def Params.names (ps : Params) : List Text := ps.map Prod.fst

theorem any_name_iff {ps : Params} {key : Text} : ps.any (·.1 = key) = true ↔ key ∈ ps.names := by
  rw [List.any_eq_true, Params.names, List.mem_map]
  simp only [decide_eq_true_eq]

theorem names_set (ps : Params) (key : Text) (v : Value) :
    (ps.set key v).names = if key ∈ ps.names then ps.names else ps.names ++ [key] := by
  by_cases hkey : key ∈ ps.names
  · rw [Params.set, if_pos (any_name_iff.mpr hkey), if_pos hkey]
    show (ps.map _).map Prod.fst = ps.map Prod.fst
    rw [List.map_map]
    apply List.map_congr_left
    intro e _
    show (if e.1 = key then (key, v) else e).1 = e.1
    split
    next h => exact h.symm
    next _ => rfl
  · rw [Params.set, if_neg (mt any_name_iff.mp hkey), if_neg hkey]
    exact List.map_append

theorem paramsForPrefix_eq (ps : Params) (start : Text) :
    paramsForPrefix ps start =
      (ps.names.filter fun k => Strings.hasPrefix k (start ++ ['_'])).length := by
  rw [paramsForPrefix, Params.names, List.filter_map, List.length_map]
  rfl

/-- The name of the next parameter, and the names after it. -/
theorem addParam_names {ps ps' : Params} (base : Text) (v v' : Value) (h : ps.names = ps'.names) :
    (addParam base ps v).1 = (addParam base ps' v').1 ∧
      (addParam base ps v).2.names = (addParam base ps' v').2.names := by
  simp only [addParam, names_set, paramsForPrefix_eq, h]
  exact ⟨trivial, trivial⟩

theorem addParams_names (base : Text) {vs vs' : List Text} (hlen : vs.length = vs'.length)
    {ps ps' : Params} (h : ps.names = ps'.names) :
    (addParams base ps vs).1 = (addParams base ps' vs').1 ∧
      (addParams base ps vs).2.names = (addParams base ps' vs').2.names := by
  induction vs generalizing vs' ps ps' with
  | nil =>
      obtain rfl : vs' = [] := List.length_eq_zero_iff.mp hlen.symm
      exact ⟨rfl, h⟩
  | cons v rest ih =>
      cases vs' with
      | nil => cases hlen
      | cons v' rest' =>
          obtain ⟨href, hnames⟩ := addParam_names base (.text v) (.text v') h
          obtain ⟨hrefs, hrest⟩ := ih (Nat.succ.inj hlen) hnames
          exact ⟨by simp only [addParams, href, hrefs], hrest⟩

/-- Every name the builder generates starts so. -/
def filterMark : Text := "ddag_filter_".toList

theorem filterMark_prefix (f : FilterConfig) (rest : Text) : filterMark <+: filterBase f ++ rest :=
  ⟨sanitizeName f.name ++ rest, (List.append_assoc filterMark _ _).symm⟩

def Generated (ps : Params) : Prop := ∀ k ∈ ps.names, filterMark <+: k

theorem generated_addParam {ps : Params} (h : Generated ps) (f : FilterConfig) (v : Value) :
    Generated (addParam (filterBase f) ps v).2 := by
  intro k hk
  rw [addParam, names_set] at hk
  split at hk
  next _ => exact h k hk
  next _ =>
    rcases List.mem_append.mp hk with hold | hnew
    · exact h k hold
    · rw [List.mem_singleton.mp hnew]
      exact filterMark_prefix f _

theorem generated_addParams {ps : Params} (h : Generated ps) (f : FilterConfig) (vs : List Text) :
    Generated (addParams (filterBase f) ps vs).2 := by
  induction vs generalizing ps with
  | nil => exact h
  | cons v rest ih => exact ih (generated_addParam h f (.text v))

/-! ## The clause of one filter -/

/-- The operators `buildWhereClause` knows. -/
inductive Operator where
  | eq
  | neq
  | like
  | gt
  | gte
  | lt
  | lte
  | between
  | within
  | isnull
deriving DecidableEq

def Operator.name : Operator → Text
  | .eq => "eq".toList
  | .neq => "neq".toList
  | .like => "like".toList
  | .gt => "gt".toList
  | .gte => "gte".toList
  | .lt => "lt".toList
  | .lte => "lte".toList
  | .between => "between".toList
  | .within => "in".toList
  | .isnull => "isnull".toList

theorem Operator.name_injective {o o' : Operator} (h : o.name = o'.name) : o = o' := by
  cases o <;> cases o' <;> first | rfl | exact absurd h (by decide)

/-- The values a clause binds, in the order of their references. -/
def Operator.values (raw : Text) : Operator → List Text
  | .like => ['%' :: raw ++ ['%']]
  | .between | .within => splitCSV raw
  | .isnull => []
  | _ => [raw]

/-- The argument of `isnull` is true. -/
def isTrue (raw : Text) : Bool := Strings.toLower (Strings.trimSpace raw) = "true".toList

/-- A comparison of a column with one value. -/
def comparison (f : FilterConfig) (sign : String) (refs : List Text) : Text :=
  f.column ++ sign.toList ++ refs.headD []

/-- The text of a clause around the references of its values. -/
def Operator.clause (f : FilterConfig) (truth : Bool) (refs : List Text) : Operator → Text
  | .eq => comparison f " = " refs
  | .neq => comparison f " <> " refs
  | .like => comparison f " LIKE " refs
  | .gt => comparison f " > " refs
  | .gte => comparison f " >= " refs
  | .lt => comparison f " < " refs
  | .lte => comparison f " <= " refs
  | .between => f.column ++ " BETWEEN ".toList ++ Strings.join refs " AND ".toList
  | .within => f.column ++ " IN (".toList ++ Strings.join refs ", ".toList ++ ")".toList
  | .isnull =>
      if truth then f.column ++ " IS NULL".toList else f.column ++ " IS NOT NULL".toList

/-- A clause that is built is the clause of an operator: it binds the values one
after the other, and its text stands around their references. -/
structure Clause (f : FilterConfig) (o : Operator) (raw : Text) (ps : Params) (r : Text × Params) :
    Prop where
  text : r.1 = o.clause f (isTrue raw) (addParams (filterBase f) ps (o.values raw)).1
  params : r.2 = (addParams (filterBase f) ps (o.values raw)).2
  two : o = .between → (o.values raw).length = 2

theorem join_pair (a b sep : Text) : Strings.join [a, b] sep = a ++ sep ++ b := by
  simp [Strings.join, List.intercalate]

theorem buildWhereClause_eq {f : FilterConfig} {op raw : Text} {ps : Params} {r : Text × Params}
    (h : buildWhereClause f op raw ps = .ok r) : ∃ o, op = Operator.name o ∧ Clause f o raw ps r := by
  unfold buildWhereClause at h
  rcases ite_eq_ok h with ⟨hop, h⟩ | ⟨-, h⟩
  · cases h
    exact ⟨.eq, hop, rfl, rfl, nofun⟩
  rcases ite_eq_ok h with ⟨hop, h⟩ | ⟨-, h⟩
  · cases h
    exact ⟨.neq, hop, rfl, rfl, nofun⟩
  rcases ite_eq_ok h with ⟨hop, h⟩ | ⟨-, h⟩
  · cases h
    exact ⟨.like, hop, rfl, rfl, nofun⟩
  rcases ite_eq_ok h with ⟨hop, h⟩ | ⟨-, h⟩
  · cases h
    exact ⟨.gt, hop, rfl, rfl, nofun⟩
  rcases ite_eq_ok h with ⟨hop, h⟩ | ⟨-, h⟩
  · cases h
    exact ⟨.gte, hop, rfl, rfl, nofun⟩
  rcases ite_eq_ok h with ⟨hop, h⟩ | ⟨-, h⟩
  · cases h
    exact ⟨.lt, hop, rfl, rfl, nofun⟩
  rcases ite_eq_ok h with ⟨hop, h⟩ | ⟨-, h⟩
  · cases h
    exact ⟨.lte, hop, rfl, rfl, nofun⟩
  rcases ite_eq_ok h with ⟨hop, h⟩ | ⟨-, h⟩
  · obtain ⟨parts, hparts⟩ : ∃ parts, splitCSV raw = parts := ⟨_, rfl⟩
    rw [hparts] at h
    match parts, h with
    | [lo, hi], h =>
        cases h
        refine ⟨.between, hop, ?_, ?_, fun _ => congrArg List.length hparts⟩
        · simp only [Operator.clause, Operator.values, hparts, addParams, join_pair,
            List.append_assoc]
        · simp only [Operator.values, hparts, addParams]
  rcases ite_eq_ok h with ⟨hop, h⟩ | ⟨-, h⟩
  · obtain ⟨parts, hparts⟩ : ∃ parts, splitCSV raw = parts := ⟨_, rfl⟩
    rw [hparts] at h
    match parts, h with
    | _ :: _, h =>
        cases h
        refine ⟨.within, hop, ?_, ?_, nofun⟩
        · simp only [Operator.clause, Operator.values, hparts]
        · simp only [Operator.values, hparts]
  rcases ite_eq_ok h with ⟨hop, h⟩ | ⟨-, h⟩
  · rcases ite_eq_ok h with ⟨htrue, h⟩ | ⟨htrue, h⟩
    · cases h
      exact ⟨.isnull, hop, (if_pos (decide_eq_true htrue)).symm, rfl, nofun⟩
    · cases h
      exact ⟨.isnull, hop, (if_neg (by simpa [isTrue] using htrue)).symm, rfl, nofun⟩
  · cases h

/-! ## The loop over the filters -/

/-- The operator of a value, and the text it applies to. -/
def operand (v : Text) : Text × Text :=
  let p := splitOperator v
  if p.1 = [] then ("eq".toList, v) else p

/-- A filter without a value adds nothing, one with a value adds its clause. -/
theorem filterStep_eq {query : Values} {acc acc' : List Text × Params} {f : FilterConfig}
    (h : filterStep query acc f = .ok acc') :
    (query.first? f.name = none ∧ acc' = acc) ∨
      ∃ v o r, query.first? f.name = some v ∧ (operand v).1 = Operator.name o ∧
        Clause f o (operand v).2 acc.2 r ∧
        acc' = (if r.1 = [] then acc.1 else acc.1 ++ [r.1], r.2) := by
  unfold filterStep at h
  cases hv : query.first? f.name with
  | none =>
      rw [hv] at h
      cases h
      exact .inl ⟨rfl, rfl⟩
  | some v =>
      rw [hv] at h
      obtain ⟨-, h⟩ := (ite_eq_ok h).resolve_left fun hbad => nomatch hbad.2
      obtain ⟨r, hr, hacc⟩ := bind_eq_ok.mp h
      cases hacc
      have hop : (if (splitOperator v).1 = [] then "eq".toList else (splitOperator v).1) =
          (operand v).1 := by
        simp only [operand]
        split <;> rfl
      have hraw : (if (splitOperator v).1 = [] then v else (splitOperator v).2) =
          (operand v).2 := by
        simp only [operand]
        split <;> rfl
      rw [hop, hraw] at hr
      obtain ⟨o, ho, hclause⟩ := buildWhereClause_eq hr
      exact .inr ⟨v, o, r, rfl, ho, hclause, rfl⟩

theorem generated_whereClauses {c : QueryBuilderConfig} {query : Values} {r : List Text × Params}
    (h : whereClauses c query = .ok r) : Generated r.2 := by
  obtain ⟨-, -, hfold⟩ := bind_eq_ok.mp h
  refine foldlM_invariant (P := fun acc => Generated acc.2) ?_ (by simp [Generated, Params.names])
    hfold
  intro f _ acc acc' hacc hstep
  rcases filterStep_eq hstep with ⟨-, rfl⟩ | ⟨v, o, r, -, -, hclause, rfl⟩
  · exact hacc
  · show Generated r.2
    rw [hclause.params]
    exact generated_addParams hacc f _

/-- The SQL text around the clauses and the order. -/
def builtText (c : QueryBuilderConfig) (clauses : List Text) (order : Text) : Text :=
  "SELECT ".toList ++ Strings.join c.select ", ".toList ++ " FROM ".toList ++ c.baseTable ++
    c.joins.flatMap joinText ++
    (if clauses = [] then [] else " WHERE ".toList ++ Strings.join clauses " AND ".toList) ++
    (if c.groupBy = [] then [] else " GROUP BY ".toList ++ Strings.join c.groupBy ", ".toList) ++
    optional " ORDER BY " order

theorem build_eq_ok {c : QueryBuilderConfig} {query : Values} {r : Text × Params}
    (h : build c query = .ok r) :
    ∃ clauses order, validate c = .ok () ∧ whereClauses c query = .ok (clauses, r.2) ∧
      orderBy c (query.get "sort".toList) = .ok order ∧ r.1 = builtText c clauses order := by
  obtain ⟨_, hvalid, h⟩ := bind_eq_ok.mp h
  obtain ⟨⟨clauses, ps⟩, hwhere, h⟩ := bind_eq_ok.mp h
  obtain ⟨order, horder, h⟩ := bind_eq_ok.mp h
  cases h
  exact ⟨clauses, order, hvalid, hwhere, horder, rfl⟩

theorem generated_build {c : QueryBuilderConfig} {query : Values} {r : Text × Params}
    (h : build c query = .ok r) : Generated r.2 := by
  obtain ⟨clauses, order, -, hwhere, -, -⟩ := build_eq_ok h
  exact generated_whereClauses hwhere

/-- Generated parameters stand beside those of the request under other names. -/
theorem buildDynamicQuery_params {api : APIDefinition} {query : Values} {params : Table Value}
    {built : BuiltQuery} (h : buildDynamicQuery api query params = .ok built) {k : Text}
    (hk : ¬ filterMark <+: k) : built.params k = params k := by
  obtain ⟨builder, -, h⟩ := bind_eq_ok.mp h
  cases builder with
  | none =>
      cases h
      rfl
  | some c =>
      obtain ⟨⟨sql, generated⟩, hbuild, h⟩ := bind_eq_ok.mp h
      cases h
      have hnone : generated.lookup k = none := by
        rw [List.lookup_eq_none_iff]
        intro e he
        have hmark := generated_build hbuild e.1 (List.mem_map_of_mem he)
        have hne : k ≠ e.1 := fun heq => hk (heq ▸ hmark)
        simpa using hne
      show (generated.lookup k).or (params k) = params k
      rw [hnone, Option.none_or]

/-! ## The shape of a request -/

/-- What the SQL text shows of a filter's value. -/
structure Shape where
  operator : Text
  /-- The number of values of an `in`. -/
  arity : Nat
  /-- The truth of an `isnull`. -/
  truth : Bool
deriving DecidableEq

def shapeOf (v : Text) : Shape :=
  { operator := (operand v).1
    arity := if (operand v).1 = Operator.within.name then (splitCSV (operand v).2).length else 0
    truth := (operand v).1 = Operator.isnull.name && isTrue (operand v).2 }

/-- Two requests that have values for the same filters, of the same shapes, and
the same sort value. -/
structure SameShape (c : QueryBuilderConfig) (query query' : Values) : Prop where
  filters : ∀ f ∈ c.filters,
    (query.first? f.name).map shapeOf = (query'.first? f.name).map shapeOf
  sort : query.get "sort".toList = query'.get "sort".toList

theorem Clause.same_shape {f : FilterConfig} {v v' : Text} (hshape : shapeOf v = shapeOf v')
    {o o' : Operator} (ho : (operand v).1 = o.name) (ho' : (operand v').1 = o'.name)
    {ps ps' : Params} (hps : ps.names = ps'.names) {r r' : Text × Params}
    (h : Clause f o (operand v).2 ps r) (h' : Clause f o' (operand v').2 ps' r') :
    r.1 = r'.1 ∧ r.2.names = r'.2.names := by
  obtain ⟨hop, harity, htruth⟩ := Shape.mk.inj hshape
  obtain rfl : o = o' := Operator.name_injective (by rw [← ho, hop, ho'])
  have hlen : (o.values (operand v).2).length = (o.values (operand v').2).length := by
    cases o with
    | between => rw [h.two rfl, h'.two rfl]
    | within => rwa [if_pos ho, if_pos ho'] at harity
    | _ => rfl
  obtain ⟨hrefs, hnames⟩ := addParams_names (filterBase f) hlen hps
  rw [h.text, h'.text, h.params, h'.params, hrefs]
  refine ⟨?_, hnames⟩
  cases o with
  | isnull =>
      have htrue : isTrue (operand v).2 = isTrue (operand v').2 := by
        simpa only [ho, ho', decide_true, Bool.true_and] using htruth
      rw [htrue]
  | _ => rfl

/-- The generated names and the clauses so far are the same in both requests. -/
def SameSoFar (acc acc' : List Text × Params) : Prop :=
  acc.1 = acc'.1 ∧ acc.2.names = acc'.2.names

theorem filterStep_shape {query query' : Values} {f : FilterConfig}
    (hshape : (query.first? f.name).map shapeOf = (query'.first? f.name).map shapeOf)
    {acc acc' r r' : List Text × Params} (hacc : SameSoFar acc acc')
    (h : filterStep query acc f = .ok r) (h' : filterStep query' acc' f = .ok r') :
    SameSoFar r r' := by
  rcases filterStep_eq h with ⟨hv, rfl⟩ | ⟨v, o, cl, hv, ho, hcl, rfl⟩ <;>
    rcases filterStep_eq h' with ⟨hv', rfl⟩ | ⟨v', o', cl', hv', ho', hcl', rfl⟩ <;>
    rw [hv, hv'] at hshape
  · exact hacc
  · cases hshape
  · cases hshape
  · obtain ⟨htext, hnames⟩ := hcl.same_shape (Option.some.inj hshape) ho ho' hacc.2 hcl'
    exact ⟨by rw [htext, hacc.1], hnames⟩

theorem whereClauses_shape {c : QueryBuilderConfig} {query query' : Values}
    (hshape : SameShape c query query') {r r' : List Text × Params}
    (h : whereClauses c query = .ok r) (h' : whereClauses c query' = .ok r') : SameSoFar r r' := by
  obtain ⟨-, -, hfold⟩ := bind_eq_ok.mp h
  obtain ⟨-, -, hfold'⟩ := bind_eq_ok.mp h'
  exact foldlM_related (fun f hf _ _ _ _ => filterStep_shape (hshape.filters f hf)) ⟨rfl, rfl⟩
    hfold hfold'

/-- Requests of one shape get one SQL text. -/
theorem build_shape {c : QueryBuilderConfig} {query query' : Values}
    (hshape : SameShape c query query') {r r' : Text × Params}
    (h : build c query = .ok r) (h' : build c query' = .ok r') : r.1 = r'.1 := by
  obtain ⟨clauses, order, -, hwhere, horder, hsql⟩ := build_eq_ok h
  obtain ⟨clauses', order', -, hwhere', horder', hsql'⟩ := build_eq_ok h'
  obtain rfl : clauses = clauses' := (whereClauses_shape hshape hwhere hwhere').1
  rw [hshape.sort, horder'] at horder
  cases horder
  rw [hsql, hsql']

theorem buildDynamicQuery_sql {api : APIDefinition} {query query' : Values}
    {params params' : Table Value} {built built' : BuiltQuery}
    (hshape : ∀ c, queryBuilderFromAPI api = .ok (some c) → SameShape c query query')
    (h : buildDynamicQuery api query params = .ok built)
    (h' : buildDynamicQuery api query' params' = .ok built') : built.sql = built'.sql := by
  obtain ⟨builder, hbuilder, h⟩ := bind_eq_ok.mp h
  obtain ⟨builder', hbuilder', h'⟩ := bind_eq_ok.mp h'
  rw [hbuilder] at hbuilder'
  cases hbuilder'
  cases builder with
  | none =>
      cases h
      cases h'
      rfl
  | some c =>
      obtain ⟨r, hr, h⟩ := bind_eq_ok.mp h
      obtain ⟨r', hr', h'⟩ := bind_eq_ok.mp h'
      cases h
      cases h'
      exact build_shape (hshape c hbuilder) hr hr'

end DDAG.Gateway
