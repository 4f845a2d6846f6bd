import DDAG.AuthService.Tokens
import DDAG.Policy.Access

/-!
# Scopes as one text

The scopes of a token are one text, joined by blanks in `resolveScope` of
`internal/authservice/service.go` and split at white space in `HasScope` of
`internal/policy/policy.go`.  `createScope` of `internal/adminsvc/handlers_rbac.go` lets every
code in that is not empty, also one with white space inside.

`scopes_faithful_iff` says when what `HasScope` finds in a token is what was granted: for every
request that names scopes, and for a request that names none if each granted code is one word.
A code of two words is split into two scopes that nobody assigned (`two_word_code_split`).
-/

namespace DDAG.AuthService

open Policy

/-- `createScope`: the code that is stored. -/
def createScope (scopeCode : Text) : Except Text Text :=
  if scopeCode = [] then .error "scope_code is required".toList else .ok scopeCode

/-- A token for the request has only granted scopes, and all of them if none was named. -/
def ScopesFaithful (granted : List Text) (requested : Text) : Prop :=
  ∀ g, resolveScope requested granted = some g →
    (∀ r, Strings.trimSpace r ≠ [] → hasScope g r = true → r ∈ granted) ∧
      (Strings.trimSpace requested = [] → ∀ code ∈ granted, hasScope g code = true)

theorem resolveScope_blank {requested : Text} (h : Strings.trimSpace requested = []) (granted : List Text) :
    resolveScope requested granted = some (Strings.join granted [' ']) := if_pos h

/-- Scopes that are named are compared word by word with what is granted. -/
theorem faithful_of_named {requested : Text} (h : Strings.trimSpace requested ≠ []) (granted : List Text) :
    ScopesFaithful granted requested := by
  intro g hg
  refine ⟨fun r hr hhas => ?_, fun hblank => absurd hblank h⟩
  rw [resolveScope, if_neg h] at hg
  split at hg
  next hall =>
    cases hg
    rw [hasScope_iff hr, Strings.fields_join fun w hw => Strings.isWord_of_mem_fields hw] at hhas
    exact Strings.isOneOf_iff.mp (List.all_eq_true.mp hall r hhas)
  next _ => cases hg

/-- Without a named scope, the words of all codes are granted. -/
theorem hasScope_join {r : Text} (h : Strings.trimSpace r ≠ []) {granted : List Text} :
    hasScope (Strings.join granted [' ']) r = true ↔ ∃ code ∈ granted, r ∈ Strings.fields code := by
  rw [hasScope_iff h, Strings.fields_join_flatMap, List.mem_flatMap]

/-- A token says what was granted if and only if the request named scopes, or every code that was
granted is blank or one word. -/
theorem scopes_faithful_iff (granted : List Text) (requested : Text) :
    ScopesFaithful granted requested ↔
      Strings.trimSpace requested ≠ [] ∨
        ∀ code ∈ granted, Strings.trimSpace code = [] ∨ Strings.IsWord code := by
  constructor
  · intro h
    by_cases hnamed : Strings.trimSpace requested = []
    · obtain ⟨-, hall⟩ := h _ (resolveScope_blank hnamed granted)
      refine .inr fun code hcode => ?_
      by_cases hblank : Strings.trimSpace code = []
      · exact .inl hblank
      · obtain ⟨_, -, hword⟩ := (hasScope_join hblank).mp (hall hnamed code hcode)
        exact .inr (Strings.isWord_of_mem_fields hword)
    · exact .inl hnamed
  · rintro (hnamed | hwords)
    · exact faithful_of_named hnamed granted
    · by_cases hnamed : Strings.trimSpace requested = []
      · intro g hg
        rw [resolveScope_blank hnamed] at hg
        cases hg
        refine ⟨fun r hr hhas => ?_, fun _ code hcode => ?_⟩
        · obtain ⟨code, hcode, hmem⟩ := (hasScope_join hr).mp hhas
          rcases hwords code hcode with hblank | hword
          · rw [Strings.fields_of_blank hblank] at hmem
            cases hmem
          · rw [Strings.fields_of_isWord hword, List.mem_singleton] at hmem
            exact hmem ▸ hcode
        · rcases hwords code hcode with hblank | hword
          · exact hasScope_blank hblank _
          · have hne : Strings.trimSpace code ≠ [] := by
              rw [Strings.trimSpace_of_isWord hword]
              exact hword.1
            refine (hasScope_join hne).mpr ⟨code, hcode, ?_⟩
            rw [Strings.fields_of_isWord hword]
            exact List.mem_singleton_self code
      · exact faithful_of_named hnamed granted

/-- A code of two words can be created.  A token with it has a scope that was not granted, and not
the one that was. -/
theorem two_word_code_split :
    createScope "orders read".toList = .ok "orders read".toList ∧
      resolveScope [] ["orders read".toList] = some "orders read".toList ∧
      hasScope "orders read".toList "orders".toList = true ∧
      "orders".toList ∉ ["orders read".toList] ∧
      hasScope "orders read".toList "orders read".toList = false := by
  decide +kernel

end DDAG.AuthService
