import DDAG.Gateway.QueryBuilder
import DDAG.Lib.Fallible

/-!
# Resolving parameters

`ResolveParams` of `internal/gateway/params.go`: every declared parameter is read
from its source, replaced by its default when it is missing or empty, checked,
and coerced to its type.

Regular expressions, UUIDs and floating-point texts are read by the library, so
the model takes these readers as parameters.
-/

namespace DDAG.Gateway

open Models Fallible

/-- A value of a decoded JSON body.  Of an array or an object only what the verb
`%v` prints is read. -/
inductive BodyValue where
  | null
  | bool (b : Bool)
  | number (bits : UInt64)
  | text (s : Text)
  | nested (printed : Text)
deriving DecidableEq

/-- The readers of the Go library. -/
structure Library where
  /-- `regexp.Compile`: the texts an expression matches, if it compiles. -/
  compile : Text → Option (Text → Bool)
  /-- `strconv.ParseFloat`. -/
  parseFloat : Text → Option UInt64
  /-- `uuid.Parse` succeeds. -/
  isUUID : Text → Bool
  /-- The verb `%v` of a floating-point number. -/
  formatFloat : UInt64 → Text

/-- What parameters are read from. -/
structure Inputs where
  pathParams : Table Text
  query : Values
  body : Table BodyValue

variable (lib : Library)

/-- The verb `%v` of a body value that is not nil. -/
def sprint : BodyValue → Option Text
  | .null => none
  | .bool b => some (if b then "true" else "false").toList
  | .number bits => some (lib.formatFloat bits)
  | .text s => some s
  | .nested printed => some printed

def rawValue (p : APIParameter) (i : Inputs) : Option Text :=
  match p.source with
  | .path => i.pathParams p.name
  | .query => (i.query.at p.name).head?
  | .body => (i.body p.name).bind (sprint lib)
  | .other => none

/-- A value of a type, or the error that names the parameter and the type. -/
def mustBe (p : APIParameter) (what : String) (v : Option Value) : Except Text Value :=
  match v with
  | some v => .ok v
  | none => .error ("parameter ".toList ++ Strings.quote p.name ++ " must be ".toList ++ what.toList)

def coerce (p : APIParameter) (raw : Text) : Except Text Value :=
  match p.paramType with
  | .int => mustBe p "an integer" ((Strings.parseInt (Strings.trimSpace raw)).map .int)
  | .number => mustBe p "a number" ((lib.parseFloat (Strings.trimSpace raw)).map .number)
  | .bool => mustBe p "a boolean" ((Strings.parseBool (Strings.trimSpace raw)).map .bool)
  | .uuid => mustBe p "a UUID" (if lib.isUUID (Strings.trimSpace raw) then some (.text raw) else none)
  | .other => .ok (.text raw)

/-- The text a parameter is checked and coerced from: its raw value unless that
is empty, or its default. -/
def supplied (p : APIParameter) (i : Inputs) : Option Text :=
  match rawValue lib p i with
  | some (c :: rest) => some (c :: rest)
  | _ => p.defaultValue

def checkLength (p : APIParameter) (raw : Text) : Except Text Unit :=
  match p.maxLength with
  | some n =>
      if 0 < n ∧ n < Strings.byteLength raw then
        .error ("parameter ".toList ++ Strings.quote p.name ++ " exceeds max length ".toList ++
          Strings.decimal n.toNat)
      else .ok ()
  | none => .ok ()

/-- A rule that does not compile is skipped. -/
def checkRule (p : APIParameter) (raw : Text) : Except Text Unit :=
  match p.validationRule.bind fun rule => if rule = [] then none else lib.compile rule with
  | some isMatch =>
      if isMatch raw then .ok ()
      else .error ("parameter ".toList ++ Strings.quote p.name ++ " failed validation".toList)
  | none => .ok ()

/-- The value of one parameter. -/
def resolveParam (p : APIParameter) (i : Inputs) : Except Text Value :=
  match supplied lib p i with
  | none =>
      if p.required then .error ("missing required parameter ".toList ++ Strings.quote p.name)
      else .ok .null
  | some raw => do
      checkLength p raw
      checkRule lib p raw
      coerce lib p raw

/-- `m[key] = v`. -/
def setKey {α : Type*} (m : Table α) (key : Text) (v : α) : Table α := Function.update m key (some v)

def resolveStep (i : Inputs) (out : Table Value) (p : APIParameter) : Except Text (Table Value) := do
  let v ← resolveParam lib p i
  return setKey out p.name v

def resolveParams (params : List APIParameter) (i : Inputs) : Except Text (Table Value) :=
  params.foldlM (resolveStep lib i) fun _ => none

theorem resolveParams_undeclared {params : List APIParameter} {i : Inputs} {out : Table Value}
    (h : resolveParams lib params i = .ok out) {k : Text} (hk : ∀ p ∈ params, p.name ≠ k) :
    out k = none := by
  refine foldlM_invariant (P := fun m => m k = none) ?_ rfl h
  intro p hp m m' hm hstep
  obtain ⟨v, -, hset⟩ := bind_eq_ok.mp hstep
  cases hset
  exact (Function.update_of_ne (hk p hp).symm _ _).trans hm

theorem resolveParams_succeeds {params : List APIParameter} {i : Inputs}
    (h : ∀ p ∈ params, ∃ v, resolveParam lib p i = .ok v) : ∃ out, resolveParams lib params i = .ok out := by
  refine foldlM_succeeds (fun p hp m => ?_) _
  obtain ⟨v, hv⟩ := h p hp
  exact ⟨setKey m p.name v, by rw [resolveStep, bind_eq_ok]; exact ⟨v, hv, rfl⟩⟩

/-- Of parameters with distinct names each has the value that was resolved for it. -/
theorem resolveParams_declared {params : List APIParameter} {i : Inputs} {out : Table Value}
    (hnames : (params.map APIParameter.name).Nodup) (h : resolveParams lib params i = .ok out)
    {p : APIParameter} (hp : p ∈ params) :
    ∃ v, resolveParam lib p i = .ok v ∧ out p.name = some v := by
  obtain ⟨before, after, rfl⟩ := List.append_of_mem hp
  unfold resolveParams at h
  rw [List.foldlM_append, bind_eq_ok] at h
  obtain ⟨m, -, hrest⟩ := h
  rw [List.foldlM_cons, bind_eq_ok] at hrest
  obtain ⟨m', hstep, hafter⟩ := hrest
  obtain ⟨v, hv, hset⟩ := bind_eq_ok.mp hstep
  cases hset
  refine ⟨v, hv, ?_⟩
  -- no later parameter has the name
  refine foldlM_invariant (P := fun m => m p.name = some v) ?_ (Function.update_self _ _ _) hafter
  intro q hq m m' hm hstep
  obtain ⟨w, -, hset⟩ := bind_eq_ok.mp hstep
  cases hset
  rw [List.map_append, List.map_cons, List.nodup_append] at hnames
  have hne : p.name ≠ q.name := fun heq =>
    (List.nodup_cons.mp hnames.2.1).1 (List.mem_map.mpr ⟨q, hq, heq.symm⟩)
  exact (Function.update_of_ne hne _ _).trans hm

end DDAG.Gateway
