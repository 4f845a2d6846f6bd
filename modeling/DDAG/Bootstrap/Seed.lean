import DDAG.AdminSvc.Accounts

/-!
# Seeding

`SeedCore` of `internal/bootstrap/seed.go`: one transaction that inserts the catalog of permissions,
the system roles with what they grant, the default scopes and the first user.  Rows that exist are
kept, but what a system role grants is set to the default whatever it was.

`seed_restores` says what a seeding leaves: each system role grants exactly its default permissions,
every other role grants what it did, users keep their roles, and there is a user `superadmin`.
`tables_kept` is about runs in which seedings and the requests of `DDAG.AdminSvc.Accounts` come in any
order.
-/

namespace DDAG.Bootstrap

open Machine Models Rbac Store AdminSvc.Accounts

/-! ## The source -/

structure ScopeRow where
  id : Id
  scopeCode : Text
  description : Text
deriving DecidableEq

structure Core where
  identity : Identity
  scopes : List ScopeRow := []

/-- The ids the database generates for rows that are inserted. -/
structure Supply where
  permission : Permission → Id
  role : SystemRole → Id
  scope : Text → Id
  user : Id

def upsertPermission (ids : Supply) (t : Identity) (p : Permission) : Except StoreError Identity :=
  match Rows.upsert PermissionRow.code PermissionRow.id ⟨ids.permission p, p.code, p.description⟩
    (fun row => { row with description := p.description }) t.permissions with
  | none => .error .failed
  | some rows => .ok { t with permissions := rows }

def upsertRole (ids : Supply) (t : Identity) (r : SystemRole) : Except StoreError Identity :=
  match Rows.upsert Role.name Role.id ⟨ids.role r, r.name, r.description, true⟩
    (fun row => { row with description := r.description, isSystem := true }) t.roles with
  | none => .error .failed
  | some rows => .ok { t with roles := rows }

/-- The role is inserted, and its permissions are set to the default. -/
def seedRole (ids : Supply) (t : Identity) (r : SystemRole) : Except StoreError Identity := do
  let t ← upsertRole ids t r
  (t.roleNamed r.name).foldlM (fun t id => t.setRolePermissions id (r.permissions.map Permission.code)) t

def defaultScopes : List (Text × Text) :=
  [("brim.site.read".toList, "Read BRIM site data".toList),
    ("brim.wo.read".toList, "Read BRIM work orders".toList),
    ("customer.profile.read".toList, "Read customer profiles".toList),
    ("inventory.stock.read".toList, "Read inventory stock".toList)]

/-- `ON CONFLICT (scope_code) DO NOTHING`. -/
def insertScope (ids : Supply) (scopes : List ScopeRow) (sc : Text × Text) : Except StoreError (List ScopeRow) :=
  match Rows.upsert ScopeRow.scopeCode ScopeRow.id ⟨ids.scope sc.1, sc.1, sc.2⟩ id scopes with
  | none => .error .failed
  | some rows => .ok rows

def superadmin : Text := "superadmin".toList

/-- The first user, unless there is one of that name. -/
def seedSuperAdmin (ids : Supply) (hashPassword : Text → Option Text) (password : Text) (t : Identity) :
    Except StoreError Identity :=
  if t.users.any (·.username = superadmin) then .ok t
  else
    let password := if password = [] then "Admin#12345".toList else password
    match hashPassword password with
    | none => .error .failed
    | some hash => do
        let t ← t.createUser
          { id := ids.user, name := "Super Admin".toList, email := "admin@ddag.local".toList,
            username := superadmin, passwordHash := hash }
        match Links.insertLinks t.userIDs ids.user (t.roleNamed SystemRole.superAdmin.name) t.userRoles with
        | none => .error .failed
        | some links => .ok { t with userRoles := links }

/-- The transaction.  The loop over the roles takes them in some order. -/
def seedCore (ids : Supply) (order : List SystemRole) (hashPassword : Text → Option Text) (password : Text)
    (c : Core) : Except StoreError Core := do
  let t ← allPermissions.foldlM (upsertPermission ids) c.identity
  let t ← order.foldlM (seedRole ids) t
  let scopes ← defaultScopes.foldlM (insertScope ids) c.scopes
  let t ← seedSuperAdmin ids hashPassword password t
  return { identity := t, scopes := scopes }

/-! ## The catalog -/

section Specs

variable {ids : Supply} {t t' : Identity}

theorem upsertPermission_eq_ok {p : Permission} (h : upsertPermission ids t p = .ok t') :
    ∃ rows, Rows.upsert PermissionRow.code PermissionRow.id ⟨ids.permission p, p.code, p.description⟩
        (fun row => { row with description := p.description }) t.permissions = some rows ∧
      t' = { t with permissions := rows } := by
  unfold upsertPermission at h
  split at h
  next _ => cases h
  next rows hrows =>
    cases h
    exact ⟨rows, hrows, rfl⟩

/-- A permission is inserted or gets its description; no role grants more or less. -/
structure CatalogGrown (t t' : Identity) : Prop where
  wellFormed : t'.WellFormed
  users : t'.users = t.users
  roles : t'.roles = t.roles
  userRoles : t'.userRoles = t.userRoles
  grants : ∀ r code, t'.Grants r code ↔ t.Grants r code
  codes : ∀ row ∈ t.permissions, ∃ row' ∈ t'.permissions, row'.code = row.code

theorem CatalogGrown.refl (h : t.WellFormed) : CatalogGrown t t :=
  ⟨h, rfl, rfl, rfl, fun _ _ => Iff.rfl, fun row hrow => ⟨row, hrow, rfl⟩⟩

theorem CatalogGrown.trans {t'' : Identity} (h : CatalogGrown t t') (h' : CatalogGrown t' t'') :
    CatalogGrown t t'' where
  wellFormed := h'.wellFormed
  users := h'.users.trans h.users
  roles := h'.roles.trans h.roles
  userRoles := h'.userRoles.trans h.userRoles
  grants r code := (h'.grants r code).trans (h.grants r code)
  codes row hrow := by
    obtain ⟨row', hrow', hcode⟩ := h.codes row hrow
    obtain ⟨row'', hrow'', hcode'⟩ := h'.codes row' hrow'
    exact ⟨row'', hrow'', hcode'.trans hcode⟩

theorem upsertPermission_spec {p : Permission} (hwf : t.WellFormed) (h : upsertPermission ids t p = .ok t') :
    CatalogGrown t t' ∧ ∃ row ∈ t'.permissions, row.code = p.code := by
  obtain ⟨rows, hrows, rfl⟩ := upsertPermission_eq_ok h
  have hup := Rows.upserted hrows (fun _ => rfl) fun _ => rfl
  obtain ⟨row, hrow, hcode, -⟩ := hup.written
  refine ⟨⟨?_, rfl, rfl, rfl, fun r code => ⟨?_, ?_⟩, fun row hrow => ?_⟩, row, hrow, hcode⟩
  · exact { hwf with
      permissionIDs := hup.idents hwf.permissionIDs
      codes := hup.keys hwf.codes
      rolePermissions := hwf.rolePermissions.mono (List.Subset.refl _) hup.subset }
  · -- a link refers to a row that was there
    rintro ⟨row, hrow, hlink, rfl⟩
    obtain ⟨old, hold, hid, hcode⟩ := hup.known row hrow (hwf.rolePermissions.target _ hlink)
    exact ⟨old, hold, hid.symm ▸ hlink, hcode⟩
  · rintro ⟨row, hrow, hlink, rfl⟩
    obtain ⟨row', hrow', hid, hcode, -⟩ := hup.kept row hrow
    exact ⟨row', hrow', hid.symm ▸ hlink, hcode⟩
  · obtain ⟨row', hrow', -, hcode, -⟩ := hup.kept row hrow
    exact ⟨row', hrow', hcode⟩

/-- After the loop over the catalog every permission of it is there. -/
theorem foldlM_upsertPermission_spec {ps : List Permission} (hwf : t.WellFormed)
    (h : ps.foldlM (upsertPermission ids) t = .ok t') :
    CatalogGrown t t' ∧ ∀ p ∈ ps, ∃ row ∈ t'.permissions, row.code = p.code := by
  induction ps generalizing t with
  | nil =>
      cases h
      exact ⟨.refl hwf, fun _ hp => absurd hp List.not_mem_nil⟩
  | cons p rest ih =>
      rw [List.foldlM_cons, Fallible.bind_eq_ok] at h
      obtain ⟨mid, hfirst, hrest⟩ := h
      obtain ⟨hgrown, row, hrow, hcode⟩ := upsertPermission_spec hwf hfirst
      obtain ⟨hgrown', hall⟩ := ih hgrown.wellFormed hrest
      refine ⟨hgrown.trans hgrown', fun q hq => ?_⟩
      rcases List.mem_cons.mp hq with rfl | hq
      · obtain ⟨row', hrow', hcode'⟩ := hgrown'.codes row hrow
        exact ⟨row', hrow', hcode'.trans hcode⟩
      · exact hall q hq

/-! ## The roles -/

theorem upsertRole_eq_ok {r : SystemRole} (h : upsertRole ids t r = .ok t') :
    ∃ rows, Rows.upsert Role.name Role.id ⟨ids.role r, r.name, r.description, true⟩
        (fun row => { row with description := r.description, isSystem := true }) t.roles = some rows ∧
      t' = { t with roles := rows } := by
  unfold upsertRole at h
  split at h
  next _ => cases h
  next rows hrows =>
    cases h
    exact ⟨rows, hrows, rfl⟩

/-- The role is there, as a system role; the others are as before. -/
structure RoleSeeded (r : SystemRole) (t t' : Identity) : Prop where
  wellFormed : t'.WellFormed
  users : t'.users = t.users
  permissions : t'.permissions = t.permissions
  userRoles : t'.userRoles = t.userRoles
  role : ∃ row ∈ t'.roles, row.name = r.name ∧ row.isSystem = true
  others : ∀ row ∈ t.roles, row.name ≠ r.name → row ∈ t'.roles
  kept : SystemRolesKept t t'

theorem upsertRole_spec {r : SystemRole} (hwf : t.WellFormed) (h : upsertRole ids t r = .ok t') :
    RoleSeeded r t t' ∧ t'.rolePermissions = t.rolePermissions := by
  obtain ⟨rows, hrows, rfl⟩ := upsertRole_eq_ok h
  have hup := Rows.upserted hrows (fun _ => rfl) fun _ => rfl
  refine ⟨⟨?_, rfl, rfl, rfl, ?_, hup.others, fun role hrole hsystem => ?_⟩, rfl⟩
  · exact { hwf with
      roleIDs := hup.idents hwf.roleIDs
      roleNames := hup.keys hwf.roleNames
      rolePermissions := hwf.rolePermissions.mono hup.subset (List.Subset.refl _)
      userRoles := hwf.userRoles.mono (List.Subset.refl _) hup.subset }
  · obtain ⟨row, hrow, hname, rfl | ⟨old, rfl⟩⟩ := hup.written
    · exact ⟨_, hrow, rfl, rfl⟩
    · exact ⟨_, hrow, hname, rfl⟩
  · obtain ⟨row, hrow, -, -, rfl | rfl⟩ := hup.kept role hrole
    · exact ⟨row, hrow, rfl, rfl, hsystem⟩
    · exact ⟨_, hrow, rfl, rfl, rfl⟩

/-- The system role is there, and grants exactly its default permissions. -/
def GrantsDefault (t : Identity) (r : SystemRole) : Prop :=
  ∃ row ∈ t.roles, row.name = r.name ∧ row.isSystem = true ∧
    ∀ code, t.Grants row.id code ↔ ∃ p ∈ r.permissions, p.code = code

/-- The role is there, and grants what it granted. -/
def SameRole (t t' : Identity) (row : Role) : Prop :=
  row ∈ t'.roles ∧ ∀ code, t'.Grants row.id code ↔ t.Grants row.id code

theorem roleNamed_eq (hwf : t.WellFormed) {row : Role} (hrow : row ∈ t.roles) : t.roleNamed row.name = [row.id] := by
  rw [Identity.roleNamed, Rows.filter_key_eq_singleton hwf.roleNames hrow]
  rfl

theorem seedRole_spec {r : SystemRole} (hwf : t.WellFormed)
    (hcatalog : ∀ p : Permission, ∃ row ∈ t.permissions, row.code = p.code) (h : seedRole ids t r = .ok t') :
    RoleSeeded r t t' ∧ GrantsDefault t' r ∧ ∀ row ∈ t.roles, row.name ≠ r.name → SameRole t t' row := by
  obtain ⟨mid, hupsert, h⟩ := Fallible.bind_eq_ok.mp h
  obtain ⟨hseeded, hlinks⟩ := upsertRole_spec hwf hupsert
  obtain ⟨role, hrole, hname, hsystem⟩ := hseeded.role
  have hmid := hseeded.wellFormed
  rw [← hname, roleNamed_eq hmid hrole, List.foldlM_cons, Fallible.bind_eq_ok] at h
  obtain ⟨t₁, hset, hdone⟩ := h
  cases hdone
  obtain ⟨links, hreplace, rfl⟩ := Identity.setRolePermissions_eq_ok hset
  have hmem := fun x => Links.mem_replaceLinks hreplace (x := x)
  refine ⟨?_, ⟨role, hrole, hname, hsystem, fun code => ?_⟩, fun row hrow hne => ⟨?_, fun code => ?_⟩⟩
  · exact { hseeded with wellFormed := hmid.setRolePermissions hset }
  · constructor
    · rintro ⟨p, hp, hlink, rfl⟩
      rcases (hmem _).mp hlink with ⟨hne, -⟩ | ⟨-, code, hcode, hid⟩
      · exact absurd rfl hne
      · obtain ⟨q, hq, rfl⟩ := List.mem_map.mp hcode
        obtain ⟨p', hp', hcode', hid'⟩ := Identity.mem_permissionCoded.mp hid
        have heq : p' = p := List.inj_on_of_nodup_map hmid.permissionIDs hp' hp hid'
        exact ⟨q, hq, heq ▸ hcode'.symm⟩
    · rintro ⟨q, hq, rfl⟩
      obtain ⟨p, hp, hcode⟩ := hcatalog q
      rw [← hseeded.permissions] at hp
      refine ⟨p, hp, (hmem _).mpr (.inr ⟨rfl, q.code, List.mem_map_of_mem hq, ?_⟩), hcode⟩
      exact Identity.mem_permissionCoded.mpr ⟨p, hp, hcode, rfl⟩
  · exact hseeded.others row hrow hne
  · -- the id of another role is another id
    have hother : row.id ≠ role.id := by
      intro heq
      have hsame := List.inj_on_of_nodup_map hmid.roleIDs (hseeded.others row hrow hne) hrole heq
      exact hne (hsame ▸ hname)
    constructor
    · rintro ⟨p, hp, hlink, rfl⟩
      rcases (hmem _).mp hlink with ⟨-, hlink⟩ | ⟨heq, -⟩
      · exact ⟨p, hseeded.permissions ▸ hp, hlinks ▸ hlink, rfl⟩
      · exact absurd heq hother
    · rintro ⟨p, hp, hlink, rfl⟩
      exact ⟨p, hseeded.permissions.symm ▸ hp, (hmem _).mpr (.inl ⟨hother, hlinks.symm ▸ hlink⟩), rfl⟩

/-- What the loop over some of the system roles leaves. -/
structure RolesSeeded (order : List SystemRole) (t t' : Identity) : Prop where
  wellFormed : t'.WellFormed
  users : t'.users = t.users
  permissions : t'.permissions = t.permissions
  userRoles : t'.userRoles = t.userRoles
  defaults : ∀ r ∈ order, GrantsDefault t' r
  others : ∀ row ∈ t.roles, (∀ r ∈ order, row.name ≠ r.name) → SameRole t t' row
  kept : SystemRolesKept t t'

theorem GrantsDefault.of_sameRole {r : SystemRole} (h : GrantsDefault t r)
    (hsame : ∀ row ∈ t.roles, row.name = r.name → SameRole t t' row) : GrantsDefault t' r := by
  obtain ⟨row, hrow, hname, hsystem, hgrants⟩ := h
  obtain ⟨hrow', hgrants'⟩ := hsame row hrow hname
  exact ⟨row, hrow', hname, hsystem, fun code => (hgrants' code).trans (hgrants code)⟩

theorem foldlM_seedRole_spec {order : List SystemRole} (hnodup : order.Nodup) (hwf : t.WellFormed)
    (hcatalog : ∀ p : Permission, ∃ row ∈ t.permissions, row.code = p.code)
    (h : order.foldlM (seedRole ids) t = .ok t') : RolesSeeded order t t' := by
  induction order generalizing t with
  | nil =>
      cases h
      exact ⟨hwf, rfl, rfl, rfl, fun _ hr => absurd hr List.not_mem_nil,
        fun row hrow _ => ⟨hrow, fun _ => Iff.rfl⟩, .of_roles rfl⟩
  | cons r rest ih =>
      obtain ⟨hfresh, hrest⟩ := List.nodup_cons.mp hnodup
      rw [List.foldlM_cons, Fallible.bind_eq_ok] at h
      obtain ⟨mid, hfirst, h⟩ := h
      obtain ⟨hseeded, hdefault, hsame⟩ := seedRole_spec hwf hcatalog hfirst
      have hcatalog' : ∀ p : Permission, ∃ row ∈ mid.permissions, row.code = p.code := by
        rw [hseeded.permissions]
        exact hcatalog
      have hlater := ih hrest hseeded.wellFormed hcatalog' h
      refine ⟨hlater.wellFormed, hlater.users.trans hseeded.users,
        hlater.permissions.trans hseeded.permissions, hlater.userRoles.trans hseeded.userRoles, ?_, ?_,
        hseeded.kept.trans hlater.kept⟩
      · intro q hq
        rcases List.mem_cons.mp hq with rfl | hq
        · -- the later roles have other names
          refine hdefault.of_sameRole fun row hrow hname => hlater.others row hrow fun s hs heq => ?_
          exact hfresh (SystemRole.name_injective (hname.symm.trans heq) ▸ hs)
        · exact hlater.defaults q hq
      · intro row hrow hnames
        obtain ⟨hmid, hgrants⟩ := hsame row hrow (hnames r List.mem_cons_self)
        obtain ⟨hrow', hgrants'⟩ := hlater.others row hmid fun s hs => hnames s (List.mem_cons_of_mem r hs)
        exact ⟨hrow', fun code => (hgrants' code).trans (hgrants code)⟩

/-! ## The first user -/

/-- What is left of users and their roles. -/
structure SuperAdminSeeded (t t' : Identity) : Prop where
  wellFormed : t'.WellFormed
  roles : t'.roles = t.roles
  permissions : t'.permissions = t.permissions
  rolePermissions : t'.rolePermissions = t.rolePermissions
  users : ∀ u ∈ t.users, u ∈ t'.users ∧ ∀ r, (u.id, r) ∈ t'.userRoles ↔ (u.id, r) ∈ t.userRoles
  superadmin : ∃ u ∈ t'.users, u.username = superadmin ∧
    ((∀ v ∈ t.users, v.username ≠ superadmin) →
      u.active = true ∧ ∀ r ∈ t.roleNamed SystemRole.superAdmin.name, (u.id, r) ∈ t'.userRoles)

theorem seedSuperAdmin_spec {hashPassword : Text → Option Text} {password : Text} (hwf : t.WellFormed)
    (h : seedSuperAdmin ids hashPassword password t = .ok t') : SuperAdminSeeded t t' := by
  unfold seedSuperAdmin at h
  split at h
  next hfound =>
    cases h
    obtain ⟨u, hu, hname⟩ := List.any_eq_true.mp hfound
    have hname : u.username = superadmin := of_decide_eq_true hname
    exact ⟨hwf, rfl, rfl, rfl, fun u hu => ⟨hu, fun _ => Iff.rfl⟩, u, hu, hname,
      fun hnone => absurd hname (hnone u hu)⟩
  next _ =>
    dsimp only at h
    split at h
    next _ => cases h
    next hash _ =>
      obtain ⟨mid, hcreate, h⟩ := Fallible.bind_eq_ok.mp h
      have hmid := hwf.createUser hcreate
      obtain ⟨rfl, hnew⟩ := Identity.createUser_eq_ok hcreate
      split at h
      next _ => cases h
      next links hlinks =>
        cases h
        have hmem := fun x => Links.mem_insertLinks hlinks (x := x)
        refine ⟨?_, rfl, rfl, rfl, fun u hu => ⟨List.mem_append_left _ hu, fun r => ?_⟩, _,
          List.mem_append_right _ (List.mem_singleton_self _), rfl, fun _ => ⟨rfl, fun r hr => ?_⟩⟩
        · refine { hmid with userRoles := hmid.userRoles.insertLinks ?_ hlinks }
          intro r hr
          obtain ⟨role, hrole, -, rfl⟩ := Identity.mem_roleNamed.mp hr
          exact List.mem_map_of_mem hrole
        · -- the links of the new user are not those of another one
          refine (hmem _).trans (or_iff_left ?_)
          rintro ⟨heq, -⟩
          exact (hnew u hu).1 heq
        · exact (hmem _).mpr (.inr ⟨rfl, hr⟩)

/-! ## The scopes -/

theorem insertScope_spec {scopes scopes' : List ScopeRow} {sc : Text × Text}
    (h : insertScope ids scopes sc = .ok scopes') :
    scopes ⊆ scopes' ∧ ∃ s ∈ scopes', s.scopeCode = sc.1 := by
  unfold insertScope at h
  split at h
  next _ => cases h
  next rows hrows =>
    cases h
    have hup := Rows.upserted hrows (fun _ => rfl) fun _ => rfl
    obtain ⟨s, hs, hcode, -⟩ := hup.written
    refine ⟨fun s hs => ?_, s, hs, hcode⟩
    obtain ⟨s', hs', -, -, rfl | rfl⟩ := hup.kept s hs <;> exact hs'

theorem foldlM_insertScope_spec {scs : List (Text × Text)} {scopes scopes' : List ScopeRow}
    (h : scs.foldlM (insertScope ids) scopes = .ok scopes') :
    scopes ⊆ scopes' ∧ ∀ sc ∈ scs, ∃ s ∈ scopes', s.scopeCode = sc.1 := by
  induction scs generalizing scopes with
  | nil =>
      cases h
      exact ⟨List.Subset.refl _, fun _ hsc => absurd hsc List.not_mem_nil⟩
  | cons sc rest ih =>
      rw [List.foldlM_cons, Fallible.bind_eq_ok] at h
      obtain ⟨mid, hfirst, hrest⟩ := h
      obtain ⟨hsub, s, hs, hcode⟩ := insertScope_spec hfirst
      obtain ⟨hsub', hall⟩ := ih hrest
      exact ⟨List.Subset.trans hsub hsub', List.forall_mem_cons.mpr ⟨⟨s, hsub' hs, hcode⟩, hall⟩⟩

end Specs

/-! ## A seeding -/

/-- What a seeding leaves. -/
structure Restored (c c' : Core) : Prop where
  wellFormed : c'.identity.WellFormed
  /-- System roles grant their default permissions. -/
  defaults : ∀ r : SystemRole, GrantsDefault c'.identity r
  /-- Other roles grant what they did. -/
  others : ∀ row ∈ c.identity.roles, (∀ r : SystemRole, row.name ≠ r.name) →
    SameRole c.identity c'.identity row
  /-- Users keep their rows and their roles. -/
  users : ∀ u ∈ c.identity.users, u ∈ c'.identity.users ∧
    ∀ r, (u.id, r) ∈ c'.identity.userRoles ↔ (u.id, r) ∈ c.identity.userRoles
  /-- There is a user `superadmin`, with every permission if it is new. -/
  superadmin : ∃ u ∈ c'.identity.users, u.username = superadmin ∧
    ((∀ v ∈ c.identity.users, v.username ≠ superadmin) →
      ∀ p : Permission, c'.identity.authority.Commands u.id p.code)
  scopes : c.scopes ⊆ c'.scopes ∧ ∀ sc ∈ defaultScopes, ∃ s ∈ c'.scopes, s.scopeCode = sc.1

section Seeding

variable {ids : Supply} {order : List SystemRole} {hashPassword : Text → Option Text} {password : Text}
  {c c' : Core}

theorem seedCore_eq_ok (h : seedCore ids order hashPassword password c = .ok c') :
    ∃ t₁ t₂, allPermissions.foldlM (upsertPermission ids) c.identity = .ok t₁ ∧
      order.foldlM (seedRole ids) t₁ = .ok t₂ ∧
      defaultScopes.foldlM (insertScope ids) c.scopes = .ok c'.scopes ∧
      seedSuperAdmin ids hashPassword password t₂ = .ok c'.identity := by
  obtain ⟨t₁, hcatalog, h⟩ := Fallible.bind_eq_ok.mp h
  obtain ⟨t₂, hroles, h⟩ := Fallible.bind_eq_ok.mp h
  obtain ⟨scopes, hscopes, h⟩ := Fallible.bind_eq_ok.mp h
  obtain ⟨t₃, huser, h⟩ := Fallible.bind_eq_ok.mp h
  cases h
  exact ⟨t₁, t₂, hcatalog, hroles, hscopes, huser⟩

theorem restored_of_seedCore (horder : order.Perm systemRoles) (hwf : c.identity.WellFormed)
    (h : seedCore ids order hashPassword password c = .ok c') :
    Restored c c' ∧ SystemRolesKept c.identity c'.identity := by
  obtain ⟨t₁, t₂, hcatalog, hroles, hscopes, huser⟩ := seedCore_eq_ok h
  obtain ⟨hgrown, hall⟩ := foldlM_upsertPermission_spec hwf hcatalog
  have hnodup : order.Nodup := horder.nodup_iff.mpr (.of_map _ nodup_systemRole_names)
  have hseeded := foldlM_seedRole_spec hnodup hgrown.wellFormed (fun p => hall p (mem_allPermissions p)) hroles
  have hadmin := seedSuperAdmin_spec hseeded.wellFormed huser
  have hmem : ∀ r : SystemRole, r ∈ order := fun r => horder.mem_iff.mpr (mem_systemRoles r)
  have hsame : ∀ row ∈ t₂.roles, SameRole t₂ c'.identity row := by
    intro row hrow
    refine ⟨hadmin.roles ▸ hrow, fun code => ?_⟩
    simp only [Identity.Grants, hadmin.permissions, hadmin.rolePermissions]
  have hdefaults : ∀ r : SystemRole, GrantsDefault c'.identity r := fun r =>
    (hseeded.defaults r (hmem r)).of_sameRole fun row hrow _ => hsame row hrow
  refine ⟨⟨hadmin.wellFormed, hdefaults, ?_, ?_, ?_, foldlM_insertScope_spec hscopes⟩, ?_⟩
  · intro row hrow hnames
    obtain ⟨hmid, hgrants⟩ := hseeded.others row (hgrown.roles ▸ hrow) fun r _ => hnames r
    obtain ⟨hrow', hgrants'⟩ := hsame row hmid
    exact ⟨hrow', fun code => (hgrants' code).trans ((hgrants code).trans (hgrown.grants _ code))⟩
  · intro u hu
    rw [← hgrown.users, ← hseeded.users] at hu
    obtain ⟨hu', hlinks⟩ := hadmin.users u hu
    refine ⟨hu', fun r => ?_⟩
    rw [hlinks r, hseeded.userRoles, hgrown.userRoles]
  · obtain ⟨u, hu, hname, hnew⟩ := hadmin.superadmin
    refine ⟨u, hu, hname, fun hnone p => ?_⟩
    rw [← hgrown.users, ← hseeded.users] at hnone
    obtain ⟨hactive, hassigned⟩ := hnew hnone
    obtain ⟨row, hrow, hrowName, -, hgrants⟩ := hdefaults .superAdmin
    refine ⟨⟨u, hu, rfl, hactive⟩, row.id, hassigned row.id ?_, ?_⟩
    · exact Identity.mem_roleNamed.mpr ⟨row, hadmin.roles ▸ hrow, hrowName, rfl⟩
    · exact (hgrants p.code).mpr ⟨p, mem_allPermissions p, rfl⟩
  · intro r hr hsystem
    rw [← hgrown.roles] at hr
    obtain ⟨r', hr', hid, hname, hsystem'⟩ := hseeded.kept r hr hsystem
    exact ⟨r', hadmin.roles ▸ hr', hid, hname, hsystem'⟩

/-- A seeding that succeeds resets what system roles grant to the defaults and leaves all other
roles, all users and their roles as they are, whatever was there. -/
theorem seed_restores (horder : order.Perm systemRoles) (hwf : c.identity.WellFormed)
    (h : seedCore ids order hashPassword password c = .ok c') : Restored c c' :=
  (restored_of_seedCore horder hwf h).1

/-- Ids that do not clash. -/
def freshSupply : Supply where
  permission p := allPermissions.idxOf p
  role r := systemRoles.idxOf r
  scope code := defaultScopes.findIdx (·.1 = code)
  user := 1

/-- Tables that were changed: `VIEWER` manages users, and the only user has a role of its own as well. -/
def changed : Identity where
  users := [⟨101, "Ops".toList, "ops@ddag.local".toList, "ops".toList, [], true, none, 0, none, none⟩]
  roles := [⟨101, SystemRole.viewer.name, [], true⟩, ⟨102, "ROLES".toList, [], false⟩]
  permissions := [⟨101, Permission.manageUser.code, []⟩, ⟨102, Permission.manageRole.code, []⟩]
  rolePermissions := [(101, 101), (102, 102)]
  userRoles := [(101, 101), (101, 102)]

theorem changed_wellFormed : changed.WellFormed where
  userIDs := by decide
  emails := by decide
  usernames := by decide
  roleIDs := by decide
  roleNames := by decide
  permissionIDs := by decide
  codes := by decide
  rolePermissions := ⟨by decide, by decide, by decide⟩
  userRoles := ⟨by decide, by decide, by decide⟩

/-- A seeding of the changed tables. -/
theorem changed_restored :
    ∃ c', seedCore freshSupply systemRoles some [] { identity := changed } = .ok c' ∧
      Restored { identity := changed } c' := by
  have hok : (seedCore freshSupply systemRoles some [] { identity := changed }).toOption.isSome = true := by
    decide +kernel
  cases h : seedCore freshSupply systemRoles some [] { identity := changed } with
  | error e =>
      rw [h] at hok
      cases hok
  | ok c' => exact ⟨c', rfl, seed_restores (.refl _) changed_wellFormed h⟩

end Seeding

/-! ## Seedings between requests -/

section Deployment

/-- The requests in flight with their tables, and the scopes. -/
structure Deployment where
  requests : Requests
  scopes : List ScopeRow

inductive Event where
  | request (e : PoolEvent Request Action)
  | seed (ids : Supply) (order : { l : List SystemRole // l.Perm systemRoles }) (password : Text)

variable (cookieName : Text) (parseSession : Text → Option Id) (hashPassword : Text → Option Text)

/-- A step of a request, or a seeding, which is one transaction. -/
def deploymentStep (d : Deployment) : Event → Option Deployment
  | .request e => (step cookieName parseSession hashPassword d.requests e).map fun p => { d with requests := p }
  | .seed ids order password =>
      match seedCore ids order hashPassword password { identity := d.requests.shared.tables, scopes := d.scopes } with
      | .error _ => some d
      | .ok c =>
          some
            { requests := { d.requests with shared := { d.requests.shared with tables := c.identity } }
              scopes := c.scopes }

def Deployment.tables (d : Deployment) : Identity := d.requests.shared.tables

/-- The constraints hold, and the system roles of a first state are there. -/
structure TablesKept (t : Identity) (d : Deployment) : Prop where
  wellFormed : d.tables.WellFormed
  system : SystemRolesKept t d.tables

variable {cookieName parseSession hashPassword} in
theorem tablesKept_step {t : Identity} {d d' : Deployment} {e : Event} (h : TablesKept t d)
    (hstep : deploymentStep cookieName parseSession hashPassword d e = some d') : TablesKept t d' := by
  cases e with
  | request e =>
      obtain ⟨p, hp, rfl⟩ := Option.map_eq_some_iff.mp hstep
      obtain ⟨hwf, hsystem⟩ := kept_step h.wellFormed hp
      exact ⟨hwf, h.system.trans hsystem⟩
  | seed ids order password =>
      simp only [deploymentStep] at hstep
      split at hstep
      next _ _ =>
        cases hstep
        exact h
      next c hc =>
        cases hstep
        obtain ⟨hrestored, hsystem⟩ := restored_of_seedCore order.2 h.wellFormed hc
        exact ⟨hrestored.wellFormed, h.system.trans hsystem⟩

/-- In every run of requests and seedings the tables keep their constraints, and a system role is
never deleted, renamed or made an ordinary one. -/
theorem tables_kept (d : Deployment) (hwf : d.tables.WellFormed) (es : List Event) :
    Along (deploymentStep cookieName parseSession hashPassword) (TablesKept d.tables) d es :=
  Along.of_step tablesKept_step ⟨hwf, .of_roles rfl⟩ es

/-- The user deletes its own role, is refused when it comes to delete `VIEWER`, and the tables are seeded. -/
def changedEvents : List Event :=
  [.request (.join ⟨helpdeskRequest, .deleteRole 102, .arrived⟩), .request (.act 0 {}), .request (.act 0 {}),
    .request (.join ⟨helpdeskRequest, .deleteRole 101, .arrived⟩), .request (.act 1 {}), .request (.act 1 {}),
    .request (.act 0 {}), .request (.act 1 {}), .seed freshSupply ⟨systemRoles, .refl _⟩ []]

theorem changed_run_kept :
    ∃ d, runs (deploymentStep "ddag_session".toList (fun _ => some 101) some)
        { requests := start changed [], scopes := [] } changedEvents = some d ∧
      102 ∉ d.tables.roleIDs ∧ TablesKept changed d := by
  have hends : (runs (deploymentStep "ddag_session".toList (fun _ => some 101) some)
      { requests := start changed [], scopes := [] } changedEvents).map (fun d => decide (102 ∈ d.tables.roleIDs)) =
        some false := by
    decide +kernel
  obtain ⟨d, hd, hdeleted⟩ := Option.map_eq_some_iff.mp hends
  have hkept := tables_kept "ddag_session".toList (fun _ => some 101) some
    { requests := start changed [], scopes := [] } changed_wellFormed changedEvents
  exact ⟨d, hd, of_decide_eq_false hdeleted, hkept.last hd⟩

end Deployment

end DDAG.Bootstrap
