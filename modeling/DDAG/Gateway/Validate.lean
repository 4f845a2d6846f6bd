import DDAG.Gateway.QueryBuilder
import DDAG.Lib.Regexp

/-!
# Validating an API

`internal/gateway/validate.go`: the checks before an API is published and
before its query is run from the admin console.

A check fails with the text of its error.  The checks call `StripDialect` and
`ExtractParamNamesDialect`, which may hang, so a check is an `ExceptT` over
`Option`, and `none` is a check that does not return.
-/

namespace DDAG.Gateway

open Models
open Connectors (stripDialect extractParamNamesDialect)

/-- A check: it hangs, fails with a text or passes. -/
abbrev Check := ExceptT Text Option

/-! ## Side-effecting statements -/

/-- Case-blind equality of a rune with a lower-case ASCII letter, `(?i)`.  The
long s folds to `s` and the Kelvin sign to `k`. -/
def foldsTo (p c : Char) : Bool :=
  c.toLower == p || (p == 's' && c == '\u017f') || (p == 'k' && c == '\u212a')

/-- A word of the expression, whatever its case. -/
def wordRx (word : String) : Regexp.Rx := .word (word.toList.map foldsTo)

/-- The single words of `writeStmt`. -/
def writeKeywords : List String :=
  ["insert", "update", "delete", "merge", "truncate", "drop", "alter", "create", "grant", "revoke",
    "call", "exec", "execute", "do", "copy", "vacuum", "reindex", "cluster", "restore", "backup"]

/-- `select\s+.*\s+into`; a dot matches any rune but a line break. -/
def selectInto : Regexp.Rx :=
  let spaces := Regexp.Rx.seq (.rune Regexp.isSpace) (.many Regexp.isSpace)
  .seq (wordRx "select") (.seq spaces (.seq (.many (· != '\n')) (.seq spaces (wordRx "into"))))

/-- The expression `writeStmt`. -/
def writeStmt : Regexp.Rx :=
  .seq .boundary (.seq (.oneOf (writeKeywords.map wordRx ++ [selectInto])) .boundary)

/-- `hasMultipleStatements`. -/
def hasMultipleStatements (q : Text) (d : Connectors.Dialect) : Option Bool :=
  (stripDialect (Strings.trimRight (· == ';') (Strings.trimSpace q)) d).map fun stripped =>
    Strings.containsRune stripped ';'

/-! ## The checks -/

def extractParams (q : Text) (d : Connectors.Dialect) : Option (List Text) :=
  extractParamNamesDialect q d

/-- `writeStmt` matches the template without its quoted regions and comments. -/
def writes (q : Text) (d : Connectors.Dialect) : Option Bool :=
  (stripDialect q d).map (Regexp.matchString writeStmt)

/-- `b && test`, for a test that may hang. -/
def andAlso (b : Bool) (test : Option Bool) : Option Bool := if b then test else some false

/-- Fail with `message` if the test says so. -/
def refuseIf (test : Option Bool) (message : Text) : Check Unit :=
  match test with
  | none => ExceptT.mk none
  | some true => throw message
  | some false => pure ()

/-- The checks of the query template that publishing and running share. -/
def validateTemplate (api : APIDefinition) (q : Text) : Check Unit := do
  refuseIf (some (q = [])) "query template is empty".toList
  refuseIf (andAlso (api.operationType = .read) (writes q api.dialect))
    (normalMethod api.method ++ " APIs cannot execute side-effecting SQL".toList)
  refuseIf (andAlso (!api.isWrite) (writes q api.dialect))
    "write statements are not allowed for read-only APIs".toList
  refuseIf (hasMultipleStatements q api.dialect) "multiple SQL statements are not allowed".toList

def validateDefaultLimit (api : APIDefinition) : Check Unit :=
  refuseIf (some (api.defaultLimit ≤ 0)) "default_limit must be greater than zero".toList

section Publish

-- `regexp.Compile`: the error of an expression that does not compile.
variable (compileError : Text → Option Text)

-- The order in which a map with these keys is walked.
variable (walk : List Text → List Text)

def validateParameterRegexes (params : List APIParameter) : Check Unit :=
  params.forM fun p =>
    match p.validationRule with
    | none => pure ()
    | some rule =>
        if rule = [] then pure ()
        else
          match compileError rule with
          | none => pure ()
          | some err => throw ("parameter ".toList ++ Strings.quote p.name ++
              " has invalid validation_rule: ".toList ++ err)

/-- `containsParam`, and the lookup in the map of declared names. -/
def containsParam (list : List Text) (name : Text) : Bool := list.any (· = name)

theorem containsParam_iff {list : List Text} {name : Text} :
    containsParam list name = true ↔ name ∈ list := by
  simp [containsParam]

/-- Every parameter of the template is declared. -/
def checkUsed (declared used : List Text) : Check Unit :=
  used.forM fun name =>
    if containsParam declared name then pure ()
    else throw ("query references undeclared parameter :".toList ++ name)

/-- Every declared parameter is in the template. -/
def checkDeclared (declared used : List Text) : Check Unit :=
  (walk declared).forM fun name =>
    if containsParam used name then pure ()
    else throw ("declared parameter ".toList ++ Strings.quote name ++
      " is not used in the query".toList)

def validateForPublish (api : APIDefinition) (params : List APIParameter) : Check Unit := do
  match queryBuilderFromAPI api with
  | .error message => throw message
  | .ok (some _) => validateDefaultLimit api
  | .ok none =>
      let q := Strings.trimSpace api.queryTemplate
      validateTemplate api q
      let declared := params.map APIParameter.name
      let used ← ExceptT.lift (extractParams q api.dialect)
      checkUsed declared used
      checkDeclared walk declared used
      validateDefaultLimit api
      validateParameterRegexes compileError params

end Publish

def validateForExecution (api : APIDefinition) : Check Unit := do
  match queryBuilderFromAPI api with
  | .error message => throw message
  | .ok (some _) => validateDefaultLimit api
  | .ok none =>
      validateTemplate api (Strings.trimSpace api.queryTemplate)
      validateDefaultLimit api

end DDAG.Gateway
