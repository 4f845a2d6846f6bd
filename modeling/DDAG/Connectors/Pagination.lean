import DDAG.Connector.Query
import DDAG.Gateway.Validate

/-!
# Pagination

`ApplyPagination` of `internal/connectors/pagination.go`, and `Query` of the
connectors up to the call of the database: the template is bound, and the clause
of the dialect is appended to what the binder returns.

The connectors are not told what the statement does.  `applyPagination_text` says
that a limit of at least one always appends `paginationClause`, and
`applyPagination_unchanged_iff` that the text stays as it was bound exactly for
the other limits.
-/

namespace DDAG.Connectors

open Gateway (Value wordRx)
open Connector (QueryRequest)
open Regexp (Rx matchString)

/-! ## The appended clause -/

/-- The expression `orderByRE`. -/
def orderByRE : Rx :=
  let spaces := Rx.seq (.rune Regexp.isSpace) (.many Regexp.isSpace)
  .seq .boundary (.seq (wordRx "order") (.seq spaces (.seq (wordRx "by") .boundary)))

def applyPagination (query : Text) (args : List Value) (dbType : Text) (limit offset : Int) :
    Text × List Value :=
  if limit ≤ 0 then (query, args)
  else
    let offset := if offset < 0 then 0 else offset
    let base := Strings.trimSuffix (Strings.trimSpace query) ";".toList
    let n := args.length
    match Dialect.ofText (Strings.toLower dbType) with
    | .postgres =>
        (base ++ (" LIMIT $".toList ++ Strings.decimal (n + 1) ++
            (" OFFSET $".toList ++ Strings.decimal (n + 2))),
          args ++ [.int limit, .int offset])
    | .mysql => (base ++ " LIMIT ?, ?".toList, args ++ [.int offset, .int limit])
    | .sqlserver =>
        let base := if matchString orderByRE base then base else base ++ " ORDER BY (SELECT 1)".toList
        (base ++ (" OFFSET @p".toList ++ Strings.decimal (n + 1) ++
            (" ROWS FETCH NEXT @p".toList ++ Strings.decimal (n + 2) ++ " ROWS ONLY".toList)),
          args ++ [.int offset, .int limit])
    | .oracle =>
        (base ++ (" OFFSET :".toList ++ Strings.decimal (n + 1) ++
            (" ROWS FETCH NEXT :".toList ++ Strings.decimal (n + 2) ++ " ROWS ONLY".toList)),
          args ++ [.int offset, .int limit])
    | .other => (base, args)

/-- What a clause is appended to. -/
def paginationBase (query : Text) : Text :=
  Strings.trimSuffix (Strings.trimSpace query) ";".toList

/-- The order a statement without one is given. -/
def addedOrder (base : Text) : Text :=
  if matchString orderByRE base then [] else " ORDER BY (SELECT 1)".toList

/-- What is appended to a statement with `n` arguments. -/
def paginationClause (d : Dialect) (base : Text) (n : Nat) : Text :=
  match d with
  | .postgres =>
      " LIMIT $".toList ++ Strings.decimal (n + 1) ++ (" OFFSET $".toList ++ Strings.decimal (n + 2))
  | .mysql => " LIMIT ?, ?".toList
  | .sqlserver =>
      addedOrder base ++
        (" OFFSET @p".toList ++ Strings.decimal (n + 1) ++
          (" ROWS FETCH NEXT @p".toList ++ Strings.decimal (n + 2) ++ " ROWS ONLY".toList))
  | .oracle =>
      " OFFSET :".toList ++ Strings.decimal (n + 1) ++
        (" ROWS FETCH NEXT :".toList ++ Strings.decimal (n + 2) ++ " ROWS ONLY".toList)
  | .other => []

/-! ## What a clause is appended to -/

/-- The parts of a query: white space, what a clause is appended to, a semicolon that may be
missing, and white space. -/
structure Framed (lead base semi trail : Text) : Prop where
  lead : ∀ c ∈ lead, Strings.isSpace c = true
  trail : ∀ c ∈ trail, Strings.isSpace c = true
  head : (base ++ semi).head?.any Strings.isSpace = false
  last : (base ++ semi).getLast?.any Strings.isSpace = false
  semi : semi = [';'] ∨ semi = [] ∧ base.getLast?.any (· = ';') = false

theorem exists_framed (query : Text) :
    ∃ lead semi trail, query = lead ++ (paginationBase query ++ semi ++ trail) ∧
      Framed lead (paginationBase query) semi trail := by
  obtain ⟨lead, trail, hquery, hlead, htrail⟩ := Strings.trimSpace_split query
  have hhead := Strings.trimSpace_head query
  have hlast := Strings.trimSpace_last query
  obtain ⟨semi, htrimmed, hsemi⟩ : ∃ semi, Strings.trimSpace query = paginationBase query ++ semi ∧
      (semi = [';'] ∨ semi = [] ∧ (paginationBase query).getLast?.any (· = ';') = false) := by
    by_cases hend : ∃ front, Strings.trimSpace query = front ++ [';']
    · obtain ⟨front, hfront⟩ := hend
      have hbase : paginationBase query = front := by
        rw [paginationBase, hfront]
        exact Strings.trimSuffix_append front [';']
      exact ⟨[';'], by rw [hbase, hfront], .inl rfl⟩
    · have hbase : paginationBase query = Strings.trimSpace query := by
        rw [paginationBase, Strings.trimSuffix, if_neg]
        intro hsuffix
        obtain ⟨front, hfront⟩ := List.isSuffixOf_iff_suffix.mp hsuffix
        exact hend ⟨front, hfront.symm⟩
      refine ⟨[], by rw [hbase, List.append_nil], .inr ⟨rfl, ?_⟩⟩
      rw [hbase, ← Bool.not_eq_true, Option.any_eq_true]
      rintro ⟨c, hc, hsemi⟩
      obtain ⟨front, hfront⟩ := List.getLast?_eq_some_iff.mp hc
      exact hend ⟨front, by rw [hfront, of_decide_eq_true hsemi]⟩
  rw [htrimmed] at hquery hhead hlast
  exact ⟨lead, semi, trail, hquery, hlead, htrail, hhead, hlast, hsemi⟩

theorem Framed.base_head {lead base semi trail : Text} (h : Framed lead base semi trail) :
    base.head?.any Strings.isSpace = false := by
  cases base with
  | nil => rfl
  | cons c base => exact h.head

theorem Framed.paginationBase_eq {lead base semi trail : Text} (h : Framed lead base semi trail) :
    paginationBase (lead ++ (base ++ semi ++ trail)) = base := by
  rw [paginationBase, Strings.trimSpace_eq h.lead h.trail h.head h.last]
  rcases h.semi with rfl | ⟨rfl, hlast⟩
  · exact Strings.trimSuffix_append base [';']
  · rw [List.append_nil, Strings.trimSuffix, if_neg]
    intro hsuffix
    obtain ⟨front, rfl⟩ := List.isSuffixOf_iff_suffix.mp hsuffix
    rw [List.getLast?_append] at hlast
    cases hlast

/-! ## `Query` of a connector -/

/-- The statement a connector of the type `dbType` sends and its arguments, or the
error of the binder. -/
def statement (dbType : Text) (req : QueryRequest) : Option (Binding Value) :=
  (bind req.queryTemplate req.parameters (placeholderForDialect (.ofText dbType))).map fun bound =>
    bound.map fun (sql, args) => applyPagination sql args dbType req.limit req.offset

/-- The types that `Builders` has a connector for. -/
def Supported (dbType : Text) : Prop := Dialect.ofText dbType ≠ .other

instance (dbType : Text) : Decidable (Supported dbType) :=
  inferInstanceAs (Decidable (Dialect.ofText dbType ≠ .other))

/-! ## When the text stays as it was bound -/

theorem Supported.toLower {dbType : Text} (h : Supported dbType) : Strings.toLower dbType = dbType := by
  unfold Supported Dialect.ofText at h
  split_ifs at h with h1 h2 h3 h4
  · rw [h1]; rfl
  · rw [h2]; rfl
  · rw [h3]; rfl
  · rw [h4]; rfl
  · exact absurd rfl h

section Text

variable {query : Text} {args : List Value} {dbType : Text} {limit offset : Int}

theorem applyPagination_none (h : limit ≤ 0) :
    applyPagination query args dbType limit offset = (query, args) :=
  if_pos h

theorem append_addedOrder (base : Text) :
    (if matchString orderByRE base then base else base ++ " ORDER BY (SELECT 1)".toList) =
      base ++ addedOrder base := by
  unfold addedOrder
  split
  next _ => rw [List.append_nil]
  next _ => rfl

/-- A limit of at least one appends the clause of the dialect. -/
theorem applyPagination_text (hd : Supported dbType) (h : 1 ≤ limit) :
    (applyPagination query args dbType limit offset).1 =
      paginationBase query ++
        paginationClause (.ofText dbType) (paginationBase query) args.length := by
  unfold applyPagination
  rw [if_neg (by omega), hd.toLower]
  cases hcase : Dialect.ofText dbType with
  | postgres => rfl
  | mysql => rfl
  | sqlserver =>
      dsimp only
      rw [append_addedOrder, List.append_assoc]
      rfl
  | oracle => rfl
  | other => exact absurd hcase hd

/-- Every clause has this letter, which is no white space and no semicolon. -/
theorem mem_paginationClause {d : Dialect} (hd : d ≠ .other) (base : Text) (n : Nat) :
    'T' ∈ paginationClause d base n := by
  cases d with
  | postgres => exact List.mem_append_left _ (List.mem_append_left _ (by decide))
  | mysql => exact (by decide : 'T' ∈ " LIMIT ?, ?".toList)
  | sqlserver =>
      exact List.mem_append_right _ (List.mem_append_left _ (List.mem_append_left _ (by decide)))
  | oracle => exact List.mem_append_left _ (List.mem_append_left _ (by decide))
  | other => exact absurd rfl hd

theorem count_paginationBase (query : Text) : (paginationBase query).count 'T' = query.count 'T' := by
  obtain ⟨a, b, hquery, ha, hb⟩ := Strings.trimSpace_split query
  obtain ⟨semi, htrimmed, hsemi⟩ := Strings.trimSuffix_split (Strings.trimSpace query) ";".toList
  have hspace : ∀ w : Text, (∀ c ∈ w, Strings.isSpace c = true) → w.count 'T' = 0 := by
    intro w hw
    refine List.count_eq_zero.mpr fun hmem => ?_
    exact absurd (hw 'T' hmem) (by decide)
  have hcut : semi.count 'T' = 0 := by
    rcases hsemi with rfl | rfl
    · decide
    · rfl
  calc (paginationBase query).count 'T'
      = (paginationBase query ++ semi).count 'T' := by rw [List.count_append, hcut, Nat.add_zero]
    _ = (Strings.trimSpace query).count 'T' := by rw [paginationBase, ← htrimmed]
    _ = (a ++ (Strings.trimSpace query ++ b)).count 'T' := by
        rw [List.count_append, List.count_append, hspace a ha, hspace b hb, Nat.zero_add, Nat.add_zero]
    _ = query.count 'T' := by rw [← hquery]

/-- The text stays as it was bound exactly without a limit. -/
theorem applyPagination_unchanged_iff (hd : Supported dbType) :
    (applyPagination query args dbType limit offset).1 = query ↔ limit ≤ 0 := by
  constructor
  · intro hsame
    by_contra hlimit
    rw [applyPagination_text hd (by omega)] at hsame
    have hcount := congrArg (List.count 'T') hsame
    rw [List.count_append, count_paginationBase] at hcount
    have hpos := List.count_pos_iff.mpr
      (mem_paginationClause hd (paginationBase query) args.length)
    omega
  · intro hlimit
    rw [applyPagination_none hlimit]

end Text

end DDAG.Connectors
