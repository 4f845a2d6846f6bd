import DDAG.Connectors.Bind
import DDAG.Lib.Strings

/-!
# Scopes and addresses

`HasScope` and `IPAllowed` of `internal/policy/policy.go`: a token needs the scope that an API
requires, if it requires one, and an address needs an entry of the whitelist.
-/

namespace DDAG.Policy

/-! ## Scopes -/

def hasScope (tokenScopes required : Text) : Bool :=
  if Strings.trimSpace required = [] then true
  else (Strings.fields tokenScopes).any (· = required)

theorem hasScope_blank {r : Text} (h : Strings.trimSpace r = []) (g : Text) : hasScope g r = true := by
  simp [hasScope, h]

theorem hasScope_iff {r : Text} (h : Strings.trimSpace r ≠ []) {g : Text} :
    hasScope g r = true ↔ r ∈ Strings.fields g := by
  simp [hasScope, h]

/-! ## Addresses -/

/-- The parsers of the package `net`. -/
structure Network (α : Type*) where
  parseIP : Text → Option α
  parseCIDR : Text → Option (α → Bool)

section IP

variable {α : Type*} [DecidableEq α] (net : Network α)

/-- One entry of the loop of `IPAllowed`. -/
def entryMatches (parsed : α) (entry : Text) : Bool :=
  let entry := Strings.trimSpace entry
  if entry = [] then false
  else if Strings.containsRune entry '/' then (net.parseCIDR entry).any fun network => network parsed
  else net.parseIP entry = some parsed

def ipAllowed (ip : Text) (cidrs : List Text) : Bool :=
  if cidrs = [] then false
  else
    match net.parseIP (Strings.trimSpace ip) with
    | none => false
    | some parsed => cidrs.any (entryMatches net parsed)

/-- The order of the entries does not matter. -/
theorem ipAllowed_perm {ip : Text} {l l' : List Text} (h : l.Perm l') :
    ipAllowed net ip l = ipAllowed net ip l' := by
  have hnil : l = [] ↔ l' = [] := by
    rw [List.eq_nil_iff_length_eq_zero, List.eq_nil_iff_length_eq_zero, h.length_eq]
  unfold ipAllowed
  simp only [hnil, h.any_eq]

end IP

end DDAG.Policy
