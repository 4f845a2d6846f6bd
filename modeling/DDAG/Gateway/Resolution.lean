import DDAG.Gateway.ParamRules

/-!
# What resolving parameters accepts

A second description of `ResolveParams`, without its loop and its early exits: which text a
parameter is given (`Given`), what is asked of that text (`Admissible`), and which value it
stands for (`Coerces`).  A parameter resolves to a value (`Resolves`) if it is given no text
and is optional, or if its text is admissible and coerces.  Nothing in it depends on whether
the text came with the request or is the default.

`resolveParams_exact` says that the loop accepts exactly the requests in which every parameter
resolves, and returns exactly the values they resolve to.
-/

namespace DDAG.Gateway

open Models Fallible

section Parameter

variable (lib : Library) (p : APIParameter) (i : Inputs)

/-- The request has a text for the parameter, in its declared source. -/
inductive Reads : Text → Prop
  | path {r : Text} (hsource : p.source = .path) (h : i.pathParams p.name = some r) : Reads r
  | query {r : Text} {rest : List Text} (hsource : p.source = .query) (h : i.query.at p.name = r :: rest) :
      Reads r
  | body {v : BodyValue} {r : Text} (hsource : p.source = .body) (h : i.body p.name = some v)
      (hprinted : sprint lib v = some r) : Reads r

/-- The text the parameter is given: that of the request unless it is empty, or the default. -/
inductive Given : Option Text → Prop
  | raw {r : Text} (h : Reads lib p i r) (hne : r ≠ []) : Given (some r)
  | byDefault (h : ∀ r, Reads lib p i r → r = []) : Given p.defaultValue

/-- The text is within the limit of bytes and matches the rule, if the rule compiles. -/
structure Admissible (raw : Text) : Prop where
  length : ∀ n, p.maxLength = some n → 0 < n → (Strings.byteLength raw : Int) ≤ n
  rule : ∀ rule, p.validationRule = some rule → rule ≠ [] →
    ∀ isMatch, lib.compile rule = some isMatch → isMatch raw = true

/-- The value a text stands for in a type. -/
inductive Coerces (raw : Text) : ParamType → Value → Prop
  | int {n : Int} (h : Strings.parseInt (Strings.trimSpace raw) = some n) : Coerces raw .int (.int n)
  | number {f : UInt64} (h : lib.parseFloat (Strings.trimSpace raw) = some f) : Coerces raw .number (.number f)
  | bool {b : Bool} (h : Strings.parseBool (Strings.trimSpace raw) = some b) : Coerces raw .bool (.bool b)
  | uuid (h : lib.isUUID (Strings.trimSpace raw) = true) : Coerces raw .uuid (.text raw)
  | other : Coerces raw .other (.text raw)

/-- The value of the parameter. -/
inductive Resolves : Value → Prop
  | absent (h : Given lib p i none) (hoptional : p.required = false) : Resolves .null
  | coerced {raw : Text} {v : Value} (h : Given lib p i (some raw)) (hadmissible : Admissible lib p raw)
      (hcoerces : Coerces lib raw p.paramType v) : Resolves v

variable {lib p i}

/-! ## The steps of the loop -/

theorem rawValue_eq_some {r : Text} : rawValue lib p i = some r ↔ Reads lib p i r := by
  constructor
  · intro h
    unfold rawValue at h
    split at h
    next hsource => exact .path hsource h
    next hsource =>
      obtain ⟨rest, hat⟩ := List.head?_eq_some_iff.mp h
      exact .query hsource hat
    next hsource =>
      obtain ⟨v, hv, hprinted⟩ := Option.bind_eq_some_iff.mp h
      exact .body hsource hv hprinted
    next _ => cases h
  · intro h
    cases h with
    | path hsource h => simpa [rawValue, hsource] using h
    | query hsource h => simp [rawValue, hsource, h]
    | body hsource h hprinted => simp [rawValue, hsource, h, hprinted]

theorem supplied_of_given {o : Option Text} (h : Given lib p i o) : supplied lib p i = o := by
  unfold supplied
  cases h with
  | raw hreads hne =>
      rw [rawValue_eq_some.mpr hreads]
      obtain ⟨c, rest, rfl⟩ := List.exists_cons_of_ne_nil hne
      rfl
  | byDefault hnone =>
      split
      next c rest hraw => exact absurd (hnone _ (rawValue_eq_some.mp hraw)) (List.cons_ne_nil c rest)
      next _ => rfl

theorem given_supplied : Given lib p i (supplied lib p i) := by
  unfold supplied
  split
  next c rest hraw => exact .raw (rawValue_eq_some.mp hraw) (List.cons_ne_nil c rest)
  next hother =>
    refine .byDefault fun r hr => ?_
    cases r with
    | nil => rfl
    | cons c rest => exact absurd (rawValue_eq_some.mpr hr) (hother c rest)

theorem checkLength_eq_ok {raw : Text} :
    checkLength p raw = .ok () ↔
      ∀ n, p.maxLength = some n → 0 < n → (Strings.byteLength raw : Int) ≤ n := by
  unfold checkLength
  cases p.maxLength with
  | none => simp
  | some n =>
      by_cases hlong : 0 < n ∧ n < (Strings.byteLength raw : Int)
      · simp [hlong]
      · have hshort : 0 < n → (Strings.byteLength raw : Int) ≤ n := by omega
        simpa [hlong] using hshort

theorem checkRule_eq_ok {raw : Text} :
    checkRule lib p raw = .ok () ↔ ∀ rule, p.validationRule = some rule → rule ≠ [] →
      ∀ isMatch, lib.compile rule = some isMatch → isMatch raw = true := by
  unfold checkRule
  cases p.validationRule with
  | none => simp
  | some rule =>
      by_cases hempty : rule = []
      · simp [hempty]
      · cases hcompile : lib.compile rule with
        | none => simp [hempty, hcompile]
        | some isMatch => cases hmatch : isMatch raw <;> simp [hempty, hcompile, hmatch]

theorem mustBe_eq_ok {what : String} {o : Option Value} {v : Value} :
    mustBe p what o = .ok v ↔ o = some v := by
  cases o <;> simp [mustBe]

theorem coerce_eq_ok {raw : Text} {v : Value} :
    coerce lib p raw = .ok v ↔ Coerces lib raw p.paramType v := by
  constructor
  · intro h
    unfold coerce at h
    split at h
    next htype =>
      obtain ⟨n, hn, rfl⟩ := Option.map_eq_some_iff.mp (mustBe_eq_ok.mp h)
      exact htype ▸ .int hn
    next htype =>
      obtain ⟨f, hf, rfl⟩ := Option.map_eq_some_iff.mp (mustBe_eq_ok.mp h)
      exact htype ▸ .number hf
    next htype =>
      obtain ⟨b, hb, rfl⟩ := Option.map_eq_some_iff.mp (mustBe_eq_ok.mp h)
      exact htype ▸ .bool hb
    next htype =>
      obtain ⟨huuid, heq⟩ := Option.ite_none_right_eq_some.mp (mustBe_eq_ok.mp h)
      cases heq
      exact htype ▸ .uuid huuid
    next htype =>
      cases h
      exact htype ▸ .other
  · intro h
    unfold coerce
    generalize p.paramType = type at h
    cases h with
    | int hn => simp [mustBe, hn]
    | number hf => simp [mustBe, hf]
    | bool hb => simp [mustBe, hb]
    | uuid huuid => simp [mustBe, huuid]
    | other => rfl

/-- One parameter resolves as the loop resolves it. -/
theorem resolveParam_eq_ok {v : Value} : resolveParam lib p i = .ok v ↔ Resolves lib p i v := by
  constructor
  · intro h
    have hgiven : Given lib p i (supplied lib p i) := given_supplied
    unfold resolveParam at h
    split at h
    next hnone =>
      rw [hnone] at hgiven
      rcases ite_eq_ok h with ⟨-, h⟩ | ⟨hoptional, h⟩
      · cases h
      · cases h
        exact .absent hgiven (Bool.of_not_eq_true hoptional)
    next raw hraw =>
      rw [hraw] at hgiven
      obtain ⟨_, hlength, h⟩ := bind_eq_ok.mp h
      obtain ⟨_, hrule, hcoerce⟩ := bind_eq_ok.mp h
      exact .coerced hgiven ⟨checkLength_eq_ok.mp hlength, checkRule_eq_ok.mp hrule⟩ (coerce_eq_ok.mp hcoerce)
  · intro h
    unfold resolveParam
    cases h with
    | absent hgiven hoptional => simp [supplied_of_given hgiven, hoptional]
    | coerced hgiven hadmissible hcoerces =>
        simp only [supplied_of_given hgiven]
        rw [bind_eq_ok]
        refine ⟨(), checkLength_eq_ok.mpr hadmissible.length, ?_⟩
        rw [bind_eq_ok]
        exact ⟨(), checkRule_eq_ok.mpr hadmissible.rule, coerce_eq_ok.mpr hcoerces⟩

end Parameter

/-- A request is accepted exactly if each of its parameters resolves, and the result then has
the declared names as its keys, each with the value its parameter resolves to. -/
theorem resolveParams_exact (lib : Library) {params : List APIParameter}
    (hnames : (params.map APIParameter.name).Nodup) (i : Inputs) :
    ((∃ out, resolveParams lib params i = .ok out) ↔ ∀ p ∈ params, ∃ v, Resolves lib p i v) ∧
      ∀ out, resolveParams lib params i = .ok out →
        (∀ k, (out k).isSome = true ↔ ∃ p ∈ params, p.name = k) ∧
          ∀ p ∈ params, ∃ v, Resolves lib p i v ∧ out p.name = some v := by
  have hdeclared : ∀ out, resolveParams lib params i = .ok out →
      ∀ p ∈ params, ∃ v, Resolves lib p i v ∧ out p.name = some v := by
    intro out hout p hp
    obtain ⟨v, hv, hkey⟩ := resolveParams_declared lib hnames hout hp
    exact ⟨v, resolveParam_eq_ok.mp hv, hkey⟩
  refine ⟨⟨?_, ?_⟩, fun out hout => ⟨fun k => ⟨?_, ?_⟩, hdeclared out hout⟩⟩
  · rintro ⟨out, hout⟩ p hp
    obtain ⟨v, hv, -⟩ := hdeclared out hout p hp
    exact ⟨v, hv⟩
  · intro h
    refine resolveParams_succeeds lib fun p hp => ?_
    obtain ⟨v, hv⟩ := h p hp
    exact ⟨v, resolveParam_eq_ok.mpr hv⟩
  · intro hsome
    by_contra hno
    have hnone := resolveParams_undeclared lib hout fun p hp heq => hno ⟨p, hp, heq⟩
    rw [hnone] at hsome
    cases hsome
  · rintro ⟨p, hp, rfl⟩
    obtain ⟨v, -, hkey⟩ := hdeclared out hout p hp
    rw [hkey]
    rfl

def defaultCode (v : String) : APIParameter := { codeParam "[a-z]" with defaultValue := some v.toList }

/-- A code that is empty in the request gets its default, and the default is checked: `a` matches
the rule, and `7` does not. -/
theorem default_code_checked :
    (∃ v, Resolves letterLibrary (defaultCode "a") (codeInputs "") v) ∧
      ¬∃ v, Resolves letterLibrary (defaultCode "7") (codeInputs "") v := by
  have haccepted := (resolveParams_exact letterLibrary
    (show ([defaultCode "a"].map APIParameter.name).Nodup from List.nodup_singleton _) (codeInputs "")).1
  have hrefused := (resolveParams_exact letterLibrary
    (show ([defaultCode "7"].map APIParameter.name).Nodup from List.nodup_singleton _) (codeInputs "")).1
  refine ⟨haccepted.mp ⟨_, rfl⟩ _ (List.mem_singleton_self _), fun hresolves => ?_⟩
  obtain ⟨out, hout⟩ := hrefused.mpr (List.forall_mem_singleton.mpr hresolves)
  cases hout

end DDAG.Gateway
