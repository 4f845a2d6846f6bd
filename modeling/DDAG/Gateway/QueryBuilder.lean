import DDAG.Models
import Mathlib.Data.List.Nodup

/-!
# The query builder

`internal/gateway/querybuilder.go`: an API whose response mapping carries a
builder configuration gets its SQL text from the configuration and the query
string.  Columns, tables and directions come from the configuration, values
from the query string become bound parameters.

A Go map that is walked is a list of entries in the order of the walk, so a
statement about every list of entries is about every order.
-/

namespace DDAG.Gateway

open Models
open Connectors (isIdentStart isIdentPart)

/-! ## Values, parameters and query strings -/

/-- A parameter value.  A floating-point number is its bits. -/
inductive Value where
  | null
  | int (n : Int)
  | number (bits : UInt64)
  | bool (b : Bool)
  | text (s : Text)
deriving DecidableEq

/-- A map of generated parameters, in the order they were set. -/
abbrev Params := List (Text × Value)

/-- `params[key] = v`. -/
def Params.set (ps : Params) (key : Text) (v : Value) : Params :=
  if ps.any (·.1 = key) then ps.map fun e => if e.1 = key then (key, v) else e
  else ps ++ [(key, v)]

/-- The values of a query string by name, `url.Values`. -/
structure Values where
  entries : List (Text × List Text)
  nodup : (entries.map Prod.fst).Nodup

/-- `query[name]`. -/
def Values.at (query : Values) (name : Text) : List Text := (query.entries.lookup name).getD []

/-- `query.Get(name)`: the first value, or the empty text. -/
def Values.get (query : Values) (name : Text) : Text := (query.at name).headD []

/-- The first value of a name, if there is one and it is not empty. -/
def Values.first? (query : Values) (name : Text) : Option Text :=
  match query.at name with
  | [] => none
  | v :: _ => if v = [] then none else some v

/-! ## Identifiers -/

/-- `[A-Za-z_][A-Za-z0-9_]*`, the expression `aliasRE`. -/
def isAlias : Text → Bool
  | [] => false
  | c :: rest => isIdentStart c && rest.all isIdentPart

/-- `identifierRE`: a name, or two with a dot between them. -/
def safeIdent (v : Text) : Bool :=
  match Strings.cut v '.' with
  | none => isAlias v
  | some (a, b) => isAlias a && isAlias b

/-- The alternatives an optional last part ` AS name` leaves for the text before it. -/
def withoutAs (v : Text) : List Text :=
  v :: (List.range v.length).filterMap fun n =>
    if Strings.hasPrefix (v.drop n) " AS ".toList && isAlias (v.drop (n + 4)) then some (v.take n)
    else none

/-- `selectColRE`. -/
def isSelectCol (v : Text) : Bool := (withoutAs v).any safeIdent

/-- `(COUNT|SUM|AVG|MIN|MAX)\((ident|\*)\)`. -/
def isAggregate (v : Text) : Bool :=
  ["COUNT(".toList, "SUM(".toList, "AVG(".toList, "MIN(".toList, "MAX(".toList].any fun f =>
    Strings.hasPrefix v f && v.getLast? = some ')' &&
      (let arg := (v.drop f.length).dropLast
       arg = ['*'] || safeIdent arg)

/-- `selectAggRE`. -/
def isSelectAgg (v : Text) : Bool := (withoutAs v).any isAggregate

def safeSelect (v : Text) : Bool :=
  isSelectCol v || isSelectAgg (Strings.toUpper (Strings.trimSpace v))

/-! ## Validating a configuration -/

def validateJoin (j : JoinConfig) : Except Text Unit :=
  let t := Strings.toLower j.type
  if t ≠ "inner".toList ∧ t ≠ "left".toList then
    .error ("join type ".toList ++ Strings.quote j.type ++ " is not allowed".toList)
  else if !safeIdent j.table || (j.joinAlias ≠ [] && !isAlias j.joinAlias) ||
      !safeIdent j.on.left || !safeIdent j.on.right || j.on.operator ≠ "=".toList then
    .error "join config is not safe".toList
  else .ok ()

/-- A named part of the configuration that must pass a check. -/
def whitelisted (kind name : Text) (ok : Bool) : Except Text Unit :=
  if ok then .ok () else .error (kind ++ " ".toList ++ Strings.quote name ++ " is not whitelisted".toList)

def validate (c : QueryBuilderConfig) : Except Text Unit := do
  if !safeIdent c.baseTable then throw "base_table is not whitelisted".toList
  if c.select = [] then throw "select must contain at least one column".toList
  c.select.forM fun sel => whitelisted "select column".toList sel (safeSelect sel)
  c.groupBy.forM fun g => whitelisted "group_by column".toList g (safeIdent g)
  c.joins.forM validateJoin
  c.filters.forM fun f => whitelisted "filter".toList f.name (f.name ≠ [] && safeIdent f.column)
  c.sortableColumns.forM fun s =>
    whitelisted "sort column".toList s.name (s.name ≠ [] && safeIdent s.column)

/-- `QueryBuilderFromAPI`: the configuration of an API that has one, or the
message of its error. -/
def queryBuilderFromAPI (api : APIDefinition) : Except Text (Option QueryBuilderConfig) :=
  match api.responseMapping with
  | .absent => .ok none
  | .invalid => .error "query builder config is invalid JSON".toList
  | .envelope none => .ok none
  | .envelope (some c) => do
      validate c
      return some c

/-! ## Filters -/

def splitCSV (v : Text) : List Text :=
  ((Strings.split v ',').map Strings.trimSpace).filter (· ≠ [])

/-- An operator before the first colon, and the text after it. -/
def splitOperator (v : Text) : Text × Text :=
  match Strings.cut v ':' with
  | none => ([], v)
  | some (op, raw) => (Strings.toLower (Strings.trimSpace op), raw)

def operatorAllowed (f : FilterConfig) (op : Text) : Bool :=
  f.operators.contains op || (f.operators = [] && op = "eq".toList)

def sanitizeName (v : Text) : Text := v.map fun c => if c = '.' ∨ c = '-' then '_' else c

/-- The number of parameters whose names start with `start_`. -/
def paramsForPrefix (ps : Params) (start : Text) : Nat :=
  (ps.filter fun e => Strings.hasPrefix e.1 (start ++ ['_'])).length

/-- The parameter names of a filter start so. -/
def filterBase (f : FilterConfig) : Text := "ddag_filter_".toList ++ sanitizeName f.name

/-- The closure `add`: set the next parameter of the filter, and give its
reference in the SQL text. -/
def addParam (base : Text) (ps : Params) (v : Value) : Text × Params :=
  let key := base ++ '_' :: Strings.decimal (paramsForPrefix ps base)
  (':' :: key, ps.set key v)

/-- A clause with one value. -/
def compareClause (f : FilterConfig) (sign : String) (v : Text) (ps : Params) : Text × Params :=
  let p := addParam (filterBase f) ps (.text v)
  (f.column ++ sign.toList ++ p.1, p.2)

/-- The references of a list of values, set from left to right. -/
def addParams (base : Text) : Params → List Text → List Text × Params
  | ps, [] => ([], ps)
  | ps, v :: vs =>
      let p := addParam base ps (.text v)
      let q := addParams base p.2 vs
      (p.1 :: q.1, q.2)

def buildWhereClause (f : FilterConfig) (op raw : Text) (ps : Params) :
    Except Text (Text × Params) :=
  if op = "eq".toList then .ok (compareClause f " = " raw ps)
  else if op = "neq".toList then .ok (compareClause f " <> " raw ps)
  else if op = "like".toList then .ok (compareClause f " LIKE " ('%' :: raw ++ ['%']) ps)
  else if op = "gt".toList then .ok (compareClause f " > " raw ps)
  else if op = "gte".toList then .ok (compareClause f " >= " raw ps)
  else if op = "lt".toList then .ok (compareClause f " < " raw ps)
  else if op = "lte".toList then .ok (compareClause f " <= " raw ps)
  else if op = "between".toList then
    match splitCSV raw with
    | [lo, hi] =>
        let p := addParam (filterBase f) ps (.text lo)
        let q := addParam (filterBase f) p.2 (.text hi)
        .ok (f.column ++ " BETWEEN ".toList ++ p.1 ++ " AND ".toList ++ q.1, q.2)
    | _ => .error ("between filter ".toList ++ Strings.quote f.name ++ " requires two values".toList)
  else if op = "in".toList then
    match splitCSV raw with
    | [] =>
        .error ("in filter ".toList ++ Strings.quote f.name ++ " requires at least one value".toList)
    | parts =>
        let p := addParams (filterBase f) ps parts
        .ok (f.column ++ " IN (".toList ++ Strings.join p.1 ", ".toList ++ ")".toList, p.2)
  else if op = "isnull".toList then
    if Strings.toLower (Strings.trimSpace raw) = "true".toList then
      .ok (f.column ++ " IS NULL".toList, ps)
    else .ok (f.column ++ " IS NOT NULL".toList, ps)
  else .error ("filter operator ".toList ++ Strings.quote op ++ " is not allowed".toList)

def ignoredQueryParam (name : Text) : Bool :=
  name = "page".toList || name = "limit".toList || name = "offset".toList || name = "sort".toList

/-- The walk over the query string: every other name must be a filter's. -/
def checkFilterNames (c : QueryBuilderConfig) (query : Values) : Except Text Unit :=
  query.entries.forM fun e =>
    if ignoredQueryParam e.1 || e.2.headD [] = [] || c.filters.any (·.name = e.1) then .ok ()
    else .error ("filter column ".toList ++ Strings.quote e.1 ++ " is not allowed".toList)

/-- One filter of the loop of `where`. -/
def filterStep (query : Values) (acc : List Text × Params) (f : FilterConfig) :
    Except Text (List Text × Params) :=
  match query.first? f.name with
  | none => .ok acc
  | some v =>
      let p := splitOperator v
      let op := if p.1 = [] then "eq".toList else p.1
      let raw := if p.1 = [] then v else p.2
      if !operatorAllowed f op then
        .error ("filter operator ".toList ++ Strings.quote op ++ " is not allowed for ".toList ++
          Strings.quote f.name)
      else do
        let r ← buildWhereClause f op raw acc.2
        return (if r.1 = [] then acc.1 else acc.1 ++ [r.1], r.2)

/-- The method `where`: the clauses and their parameters. -/
def whereClauses (c : QueryBuilderConfig) (query : Values) : Except Text (List Text × Params) := do
  checkFilterNames c query
  c.filters.foldlM (filterStep query) ([], [])

/-! ## Ordering -/

/-- The column of a sortable name.  Later columns of a name replace earlier ones. -/
def sortColumn (c : QueryBuilderConfig) (name : Text) : Option Text :=
  (c.sortableColumns.reverse.find? (·.name = name)).map SortableColumn.column

def sortPart (c : QueryBuilderConfig) (token : Text) : Except Text Text :=
  let descends := Strings.hasPrefix token ['-']
  let name := if descends then token.tail else token
  match sortColumn c name with
  | none => .error ("sort column ".toList ++ Strings.quote name ++ " is not allowed".toList)
  | some column => .ok (column ++ (if descends then " DESC" else " ASC").toList)

def orderBy (c : QueryBuilderConfig) (raw : Text) : Except Text Text :=
  let raw := if raw = [] then c.defaultSort else raw
  if raw = [] then .ok []
  else do
    let parts ← (splitCSV raw).mapM (sortPart c)
    return Strings.join parts ", ".toList

/-! ## Building a query -/

def joinText (j : JoinConfig) : Text :=
  ' ' :: Strings.toUpper j.type ++ " JOIN ".toList ++ j.table ++
    (if j.joinAlias ≠ [] then ' ' :: j.joinAlias else []) ++ " ON ".toList ++ j.on.left ++
    ' ' :: j.on.operator ++ ' ' :: j.on.right

/-- A part of the SQL text that is left out when it is empty. -/
def optional (keyword : String) (text : Text) : Text :=
  if text = [] then [] else keyword.toList ++ text

/-- The method `Build`. -/
def build (c : QueryBuilderConfig) (query : Values) : Except Text (Text × Params) := do
  validate c
  let (clauses, ps) ← whereClauses c query
  let order ← orderBy c (query.get "sort".toList)
  return ("SELECT ".toList ++ Strings.join c.select ", ".toList ++ " FROM ".toList ++ c.baseTable ++
    c.joins.flatMap joinText ++
    (if clauses = [] then [] else " WHERE ".toList ++ Strings.join clauses " AND ".toList) ++
    (if c.groupBy = [] then [] else " GROUP BY ".toList ++ Strings.join c.groupBy ", ".toList) ++
    optional " ORDER BY " order, ps)

structure BuiltQuery where
  sql : Text
  params : Table Value

/-- `BuildDynamicQuery`: the generated parameters are set over the request's. -/
def buildDynamicQuery (api : APIDefinition) (query : Values) (params : Table Value) :
    Except Text BuiltQuery := do
  match ← queryBuilderFromAPI api with
  | none => return { sql := api.queryTemplate, params := params }
  | some c =>
      let (sql, generated) ← build c query
      return { sql := sql, params := fun k => (generated.lookup k).or (params k) }

end DDAG.Gateway
