import DDAG.Gateway.Params
import DDAG.Gateway.Validate

/-!
# Validation rules

A parameter may have a rule, a regular expression its value must match.  `ResolveParams` skips a
rule that does not compile, because `ValidateForPublish` has refused it; but for an API with a
query builder the publish check returns before it comes to the rules.

`rule_enforced_iff` says when a value that does not match is refused: always without a query
builder, and always if the rule compiles.  Otherwise the rule is as good as absent
(`resolveParams_withoutRule`), and `broken_rule_published` is such an API.
-/

namespace DDAG.Gateway

open Models Fallible

/-- The error of `regexp.Compile`, for an expression that does not compile. -/
def Library.compileError (lib : Library) (message : Text → Text) (rule : Text) : Option Text :=
  if (lib.compile rule).isSome then none else some (message rule)

/-- The value matches the rule.  Nothing matches a rule that does not compile. -/
def Library.ruleMatches (lib : Library) (rule raw : Text) : Bool := (lib.compile rule).any fun isMatch => isMatch raw

/-! ## The publish check -/

theorem validateParameterRegexes_ok {compileError : Text → Option Text} {params : List APIParameter}
    (h : (validateParameterRegexes compileError params).run = some (.ok ())) :
    ∀ p ∈ params, ∀ rule, p.validationRule = some rule → rule ≠ [] → compileError rule = none := by
  induction params with
  | nil => exact fun _ hp => absurd hp List.not_mem_nil
  | cons q params ih =>
      obtain ⟨_, hfirst, hrest⟩ := run_bind_eq_ok h
      refine List.forall_mem_cons.mpr ⟨fun rule hrule hne => ?_, ih hrest⟩
      simp only [hrule, if_neg hne] at hfirst
      cases herror : compileError rule with
      | none => rfl
      | some e =>
          rw [herror] at hfirst
          cases hfirst

section Rules

variable {lib : Library} {message : Text → Text} {walk : List Text → List Text} {api : APIDefinition}
  {declared : List APIParameter} {p : APIParameter} {rule raw : Text} {i : Inputs}

/-- Without a query builder, publishing comes to the rules. -/
theorem compiles_of_published
    (hpublished : (validateForPublish (lib.compileError message) walk api declared).run = some (.ok ()))
    (hbuilder : queryBuilderFromAPI api = .ok none) (hp : p ∈ declared)
    (hrule : p.validationRule = some rule) (hne : rule ≠ []) : (lib.compile rule).isSome = true := by
  unfold validateForPublish at hpublished
  rw [hbuilder] at hpublished
  obtain ⟨_, -, h⟩ := run_bind_eq_ok hpublished
  obtain ⟨_, -, h⟩ := run_bind_eq_ok h
  obtain ⟨_, -, h⟩ := run_bind_eq_ok h
  obtain ⟨_, -, h⟩ := run_bind_eq_ok h
  obtain ⟨_, -, hrules⟩ := run_bind_eq_ok h
  have hnone := validateParameterRegexes_ok hrules p hp rule hrule hne
  unfold Library.compileError at hnone
  split at hnone
  next hsome => exact hsome
  next _ => cases hnone

/-! ## The check of a request -/

/-- A rule that compiles refuses a value that does not match. -/
theorem resolveParam_refuses (hrule : p.validationRule = some rule) (hne : rule ≠ [])
    (hcompiles : (lib.compile rule).isSome = true) (hvalue : supplied lib p i = some raw)
    (hmatch : lib.ruleMatches rule raw = false) (v : Value) : resolveParam lib p i ≠ .ok v := by
  intro h
  unfold resolveParam at h
  rw [hvalue] at h
  obtain ⟨_, -, h⟩ := bind_eq_ok.mp h
  obtain ⟨_, hcheck, -⟩ := bind_eq_ok.mp h
  obtain ⟨isMatch, hcompile⟩ := Option.isSome_iff_exists.mp hcompiles
  rw [Library.ruleMatches, hcompile, Option.any_some] at hmatch
  simp only [checkRule, hrule, Option.bind_some, if_neg hne, hcompile, hmatch, Bool.false_eq_true,
    if_false] at hcheck
  cases hcheck

/-- A request with a parameter that has no value is refused. -/
theorem resolveParams_refuses (hp : p ∈ declared) (hrefused : ∀ v, resolveParam lib p i ≠ .ok v) :
    ∃ e, resolveParams lib declared i = .error e := by
  cases hresolved : resolveParams lib declared i with
  | error e => exact ⟨e, rfl⟩
  | ok out =>
      obtain ⟨m, m', hstep⟩ := foldlM_steps hresolved p hp
      obtain ⟨v, hv, -⟩ := bind_eq_ok.mp hstep
      exact absurd hv (hrefused v)

/-- The parameters, with one of them without its rule. -/
def withoutRule (p q : APIParameter) : APIParameter :=
  if q = p then { q with validationRule := none } else q

/-- A rule that does not compile is as good as absent. -/
theorem resolveParam_withoutRule (hrule : p.validationRule = some rule) (hbroken : lib.compile rule = none)
    (q : APIParameter) : resolveParam lib (withoutRule p q) i = resolveParam lib q i := by
  unfold withoutRule
  split
  next heq =>
    subst heq
    have hskip : ∀ raw, checkRule lib { q with validationRule := none } raw = checkRule lib q raw := by
      intro raw
      simp [checkRule, hrule, hbroken]
    unfold resolveParam
    simp only [hskip]
    rfl
  next _ => rfl

theorem withoutRule_name (p q : APIParameter) : (withoutRule p q).name = q.name := by
  unfold withoutRule
  split <;> rfl

theorem resolveParams_withoutRule (hrule : p.validationRule = some rule) (hbroken : lib.compile rule = none) :
    resolveParams lib (declared.map (withoutRule p)) i = resolveParams lib declared i := by
  unfold resolveParams
  rw [List.foldlM_map]
  congr 1
  funext out q
  rw [resolveStep, resolveParam_withoutRule hrule hbroken, withoutRule_name, resolveStep]

end Rules

/-- A value of a published API that does not match the rule of its parameter is refused exactly if
the API has no query builder, or the rule compiles, or the request would be refused without the
rule. -/
theorem rule_enforced_iff {lib : Library} {message : Text → Text} {walk : List Text → List Text}
    {api : APIDefinition} {declared : List APIParameter}
    (hpublished : (validateForPublish (lib.compileError message) walk api declared).run = some (.ok ()))
    {p : APIParameter} (hp : p ∈ declared) {rule : Text} (hrule : p.validationRule = some rule)
    (hne : rule ≠ []) {i : Inputs} {raw : Text} (hvalue : supplied lib p i = some raw)
    (hmatch : lib.ruleMatches rule raw = false) :
    (∃ e, resolveParams lib declared i = .error e) ↔
      queryBuilderFromAPI api = .ok none ∨ (lib.compile rule).isSome = true ∨
        ∃ e, resolveParams lib (declared.map (withoutRule p)) i = .error e := by
  have henforced : (lib.compile rule).isSome = true → ∃ e, resolveParams lib declared i = .error e :=
    fun hcompiles => resolveParams_refuses hp (resolveParam_refuses hrule hne hcompiles hvalue hmatch)
  constructor
  · intro hrefused
    cases hcompile : lib.compile rule with
    | some isMatch => exact .inr (.inl rfl)
    | none =>
        rw [← resolveParams_withoutRule hrule hcompile] at hrefused
        exact .inr (.inr hrefused)
  · rintro (hbuilder | hcompiles | hrefused)
    · exact henforced (compiles_of_published hpublished hbuilder hp hrule hne)
    · exact henforced hcompiles
    · cases hcompile : lib.compile rule with
      | some isMatch => exact henforced (by rw [hcompile]; rfl)
      | none => rwa [← resolveParams_withoutRule hrule hcompile]

/-- A library in which `[a-z]` matches one text and `[a-` does not compile. -/
def letterLibrary : Library where
  compile rule := if rule = "[a-z]".toList then some (· = "a".toList) else none
  parseFloat _ := none
  isUUID _ := false
  formatFloat _ := []

def codeParam (rule : String) : APIParameter := { name := "code".toList, validationRule := some rule.toList }

/-- A request with a value for the code. -/
def codeInputs (v : String) : Inputs where
  pathParams := fun _ => none
  query := { entries := [("code".toList, [v.toList])], nodup := List.nodup_singleton _ }
  body := fun _ => none

/-- An API with a template. -/
def codeAPI : APIDefinition where
  connectorType := "postgres".toList
  queryTemplate := "SELECT * FROM rows WHERE code = :code".toList
  defaultLimit := 10

/-- A value that does not match is refused. -/
theorem digit_refused : ∃ e, resolveParams letterLibrary [codeParam "[a-z]"] (codeInputs "7") = .error e := by
  have hpublished : (validateForPublish (letterLibrary.compileError id) id codeAPI
      [codeParam "[a-z]"]).run = some (.ok ()) := by decide +kernel
  have hvalue : supplied letterLibrary (codeParam "[a-z]") (codeInputs "7") = some "7".toList := rfl
  exact (rule_enforced_iff hpublished (List.mem_singleton_self _) rfl (by decide) hvalue
    (by decide +kernel)).mpr (.inl rfl)

/-- The same rows, from a query builder. -/
def codeBuilder : QueryBuilderConfig where
  baseTable := "rows".toList
  select := ["code".toList]
  joins := []
  groupBy := []
  filters := [{ name := "code".toList, column := "code".toList, operators := [] }]
  sortableColumns := []
  defaultSort := []

/-- An API with a query builder is published with a rule that does not compile, and every value is
accepted. -/
theorem broken_rule_published :
    let api := { codeAPI with responseMapping := .envelope (some codeBuilder) }
    (validateForPublish (letterLibrary.compileError id) id api [codeParam "[a-"]).run = some (.ok ()) ∧
      supplied letterLibrary (codeParam "[a-") (codeInputs "7") = some "7".toList ∧
      letterLibrary.ruleMatches "[a-".toList "7".toList = false ∧
      ∃ out, resolveParams letterLibrary [codeParam "[a-"] (codeInputs "7") = .ok out ∧
        out "code".toList = some (.text "7".toList) := by
  exact ⟨by decide +kernel, rfl, rfl, _, rfl, rfl⟩

end DDAG.Gateway
