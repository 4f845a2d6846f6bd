import Mathlib.Data.Set.Basic

/-!
# Authority that can be passed on

Accounts have roles, and roles grant privileges.  Two of the privileges are over this assignment
itself: the holder of `users` may give roles to accounts and open or close accounts, the holder of
`roles` may change what a role grants.  So an account may get more than it has.

`Ceiling` says how much a coalition of accounts can get, from the first state alone.  `Bounded` is
the invariant behind it: what a state may differ in from the first one.  A change of roles and of
accounts keeps it as long as the privilege for the change is itself below the ceiling
(`Bounded.change_roles`, `Bounded.change_accounts`), so the ceiling bounds every later state
(`Bounded.ceiling`).
-/

namespace Authority

variable {U R P : Type*}

/-- Who has which role, what the roles grant, and whose account is open. -/
structure State (U R P : Type*) where
  assigned : U → R → Prop
  grants : R → P → Prop
  active : U → Prop

/-- The account has a role that grants the privilege. -/
def State.Holds (s : State U R P) (u : U) (p : P) : Prop := ∃ r, s.assigned u r ∧ s.grants r p

/-- The account is open and holds the privilege. -/
def State.Commands (s : State U R P) (u : U) (p : P) : Prop := s.active u ∧ s.Holds u p

/-- The privileges there are, and the two over accounts and roles. -/
structure Law (P : Type*) where
  catalog : P → Prop
  users : P
  roles : P

section Ceiling

variable (law : Law P) (s : State U R P) (K : Set U)

/-- Some account of the coalition can use the privilege. -/
def Has (p : P) : Prop := ∃ u ∈ K, s.Commands u p

/-- The coalition can come to change what roles grant: it holds the privilege, or it may give
itself a role that grants it. -/
def MayChangeRoles : Prop := Has s K law.roles ∨ (Has s K law.users ∧ ∃ r, s.grants r law.roles)

/-- What the coalition can ever get: what it has, everything if it can come to change roles, and
what any role grants if it may give itself roles. -/
def Ceiling (p : P) : Prop :=
  Has s K p ∨ (MayChangeRoles law s K ∧ law.catalog p) ∨ (Has s K law.users ∧ ∃ r, s.grants r p)

/-- The account was open in the first state, or the coalition can come to open it. -/
def WasActive (u : U) : Prop := Ceiling law s K law.users ∨ s.active u

end Ceiling

variable {law : Law P} {s₀ s s' : State U R P} {K₀ K K' : Set U}

theorem ceiling_roles_iff : Ceiling law s₀ K₀ law.roles ↔ MayChangeRoles law s₀ K₀ := by
  constructor
  · rintro (h | ⟨h, -⟩ | h)
    · exact .inl h
    · exact h
    · exact .inr h
  · rintro (h | h)
    · exact .inl h
    · exact .inr (.inr h)

/-- Without a way to change roles, accounts are changed by who may do so from the start. -/
theorem has_users_of_ceiling (h : Ceiling law s₀ K₀ law.users) (hroles : ¬MayChangeRoles law s₀ K₀) :
    Has s₀ K₀ law.users := by
  rcases h with h | ⟨h, -⟩ | ⟨h, -⟩
  · exact h
  · exact absurd h hroles
  · exact h

/-- The state, with a coalition that may have grown, is one that the first coalition can bring
about. -/
structure Bounded (law : Law P) (s₀ : State U R P) (K₀ : Set U) (s : State U R P) (K : Set U) : Prop where
  /-- Roles grant privileges that there are. -/
  catalogued : ∀ r p, s.grants r p → law.catalog p
  /-- Who cannot come to change roles has not made them grant more. -/
  granted : ¬MayChangeRoles law s₀ K₀ → ∀ r p, s.grants r p → s₀.grants r p
  /-- Who cannot come to change accounts has won none, and no roles for the own ones. -/
  accounts : ¬Ceiling law s₀ K₀ law.users → ∀ u ∈ K, u ∈ K₀ ∧ (s.active u → s₀.active u) ∧
    ∀ r, s.assigned u r → s₀.assigned u r

namespace Bounded

theorem refl (h : ∀ r p, s₀.grants r p → law.catalog p) : Bounded law s₀ K₀ s₀ K₀ where
  catalogued := h
  granted _ _ _ := id
  accounts _ _ hu := ⟨hu, id, fun _ => id⟩

/-- An open account of the coalition was open from the start, unless accounts can be changed. -/
theorem wasActive (h : Bounded law s₀ K₀ s K) {u : U} (hu : u ∈ K) (hactive : s.active u) :
    WasActive law s₀ K₀ u := by
  by_cases husers : Ceiling law s₀ K₀ law.users
  · exact .inl husers
  · exact .inr ((h.accounts husers u hu).2.1 hactive)

/-- Nothing the coalition holds is above the ceiling.  The account may have been found open in an
earlier state. -/
theorem ceiling (h : Bounded law s₀ K₀ s K) {u : U} {p : P} (hu : u ∈ K) (hwas : WasActive law s₀ K₀ u)
    (hp : s.Holds u p) : Ceiling law s₀ K₀ p := by
  obtain ⟨r, hassigned, hgrants⟩ := hp
  by_cases hroles : MayChangeRoles law s₀ K₀
  · exact .inr (.inl ⟨hroles, h.catalogued r p hgrants⟩)
  have hgrants₀ := h.granted hroles r p hgrants
  by_cases husers : Ceiling law s₀ K₀ law.users
  · exact .inr (.inr ⟨has_users_of_ceiling husers hroles, r, hgrants₀⟩)
  · obtain ⟨hu₀, -, hassigned₀⟩ := h.accounts husers u hu
    exact .inl ⟨u, hu₀, hwas.resolve_left husers, r, hassigned₀ r hassigned, hgrants₀⟩

/-- A change of what roles grant, below the ceiling, that takes roles from accounts at most. -/
theorem change_roles (h : Bounded law s₀ K₀ s K) (hmay : Ceiling law s₀ K₀ law.roles)
    (hcatalog : ∀ r p, s'.grants r p → law.catalog p) (hactive : ∀ u, s'.active u → s.active u)
    (hassigned : ∀ u r, s'.assigned u r → s.assigned u r) : Bounded law s₀ K₀ s' K where
  catalogued := hcatalog
  granted hroles := absurd (ceiling_roles_iff.mp hmay) hroles
  accounts husers u hu := by
    obtain ⟨hu₀, hactive₀, hassigned₀⟩ := h.accounts husers u hu
    exact ⟨hu₀, fun ha => hactive₀ (hactive u ha), fun r hr => hassigned₀ r (hassigned u r hr)⟩

/-- A change of accounts and of the coalition, below the ceiling, that leaves roles as they are. -/
theorem change_accounts (h : Bounded law s₀ K₀ s K) (hmay : Ceiling law s₀ K₀ law.users)
    (hgrants : ∀ r p, s'.grants r p → s.grants r p) : Bounded law s₀ K₀ s' K' where
  catalogued r p hp := h.catalogued r p (hgrants r p hp)
  granted hroles r p hp := h.granted hroles r p (hgrants r p hp)
  accounts husers := absurd hmay husers

end Bounded

end Authority
