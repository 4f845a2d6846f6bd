import DDAG.Lib.Authority
import DDAG.Lib.Links
import DDAG.Lib.Rows
import DDAG.Models
import DDAG.Store.Connections
import Mathlib.Data.List.Dedup

/-!
# Users, roles and permissions

The tables of `migrations/0001_identity.sql` and the statements of `internal/store/identity.go` on
them.  Keys and names are unique, and the two link tables refer to rows that exist; a role takes its
links with it when it is deleted (`WellFormed`).

The tables say who may do what (`Identity.authority`): `UserPermissionCodes` is the codes a user
holds there (`mem_userPermissionCodes`), and each statement is described by what it does to it.
-/

namespace DDAG.Store

open Links Models

structure User where
  id : Id
  name : Text
  email : Text
  username : Text
  passwordHash : Text
  /-- The status is `active`, not `inactive`. -/
  active : Bool := true
  tenant : Option Text := none
  failedLoginCount : Nat := 0
  lockedUntil : Option Int := none
  createdBy : Option Id := none
deriving DecidableEq

structure Role where
  id : Id
  name : Text
  description : Text
  isSystem : Bool := false
deriving DecidableEq

structure PermissionRow where
  id : Id
  code : Text
  description : Text
deriving DecidableEq

structure Identity where
  users : List User := []
  roles : List Role := []
  permissions : List PermissionRow := []
  /-- Pairs of a role and a permission. -/
  rolePermissions : List (Id × Id) := []
  /-- Pairs of a user and a role. -/
  userRoles : List (Id × Id) := []
deriving DecidableEq

namespace Identity

/-! ## Queries -/

section Queries

variable (t : Identity)

def userIDs : List Id := t.users.map User.id

def roleIDs : List Id := t.roles.map Role.id

def permissionIDs : List Id := t.permissions.map PermissionRow.id

/-- `SELECT id FROM roles WHERE name=$2`. -/
def roleNamed (name : Text) : List Id := (t.roles.filter (·.name = name)).map Role.id

/-- `SELECT id FROM permissions WHERE code=$2`. -/
def permissionCoded (code : Text) : List Id := (t.permissions.filter (·.code = code)).map PermissionRow.id

def userRoleNames (userID : Id) : List Text :=
  (t.roles.filter fun r => t.userRoles.contains (userID, r.id)).map Role.name

/-- The user with the names of its roles. -/
def getUserByID (id : Id) : Except StoreError (User × List Text) :=
  match t.users.find? (·.id = id) with
  | none => .error .notFound
  | some u => .ok (u, t.userRoleNames id)

def userPermissionCodes (userID : Id) : List Text :=
  ((t.permissions.filter fun p =>
    t.rolePermissions.any fun rp => rp.2 = p.id && t.userRoles.contains (userID, rp.1)).map
      PermissionRow.code).dedup

end Queries

/-! ## Statements -/

section Statements

variable (t : Identity)

def createUser (u : User) : Except StoreError Identity :=
  if t.users.any fun v => v.id = u.id || v.email = u.email || v.username = u.username then .error .failed
  else .ok { t with users := t.users ++ [u] }

/-- The check of the column `status`. -/
def userStatus (status : Text) : Option Bool :=
  if status = "active".toList then some true
  else if status = "inactive".toList then some false
  else none

def updateUsers (id : Id) (set : User → User) : Identity :=
  { t with users := t.users.map fun u => if u.id = id then set u else u }

def updateUser (id : Id) (name email : Text) (tenant : Option Text) (status : Text) :
    Except StoreError Identity :=
  if !t.users.any (·.id = id) then .error .notFound
  else
    match userStatus status with
    | none => .error .failed
    | some active =>
        if t.users.any fun u => u.id ≠ id && u.email = email then .error .failed
        else .ok (t.updateUsers id fun u =>
          { u with name := name, email := email, tenant := tenant, active := active })

/-- No error if there is no such user. -/
def setUserPassword (id : Id) (hash : Text) : Identity :=
  t.updateUsers id fun u => { u with passwordHash := hash, failedLoginCount := 0, lockedUntil := none }

def setUserRoles (userID : Id) (roleNames : List Text) : Except StoreError Identity :=
  match replaceLinks t.userIDs t.roleNamed userID roleNames t.userRoles with
  | none => .error .failed
  | some links => .ok { t with userRoles := links }

def createRole (id : Id) (name description : Text) : Except StoreError Identity :=
  if t.roles.any fun r => r.id = id || r.name = name then .error .failed
  else .ok { t with roles := t.roles ++ [{ id := id, name := name, description := description }] }

/-- No error if there is no such role. -/
def updateRoleDescription (id : Id) (description : Text) : Identity :=
  { t with roles := t.roles.map fun r => if r.id = id then { r with description := description } else r }

/-- The links of a role go with it. -/
def deleteRole (id : Id) : Except StoreError Identity :=
  if !t.roles.any fun r => r.id = id && !r.isSystem then .error .notFound
  else .ok { t with
    roles := t.roles.filter fun r => !(r.id = id && !r.isSystem)
    rolePermissions := t.rolePermissions.filter fun l => l.1 ≠ id
    userRoles := t.userRoles.filter fun l => l.2 ≠ id }

def setRolePermissions (roleID : Id) (codes : List Text) : Except StoreError Identity :=
  match replaceLinks t.roleIDs t.permissionCoded roleID codes t.rolePermissions with
  | none => .error .failed
  | some links => .ok { t with rolePermissions := links }

end Statements

/-! ## Who may do what -/

def Grants (t : Identity) (roleID : Id) (code : Text) : Prop :=
  ∃ p ∈ t.permissions, (roleID, p.id) ∈ t.rolePermissions ∧ p.code = code

/-- The tables as an assignment of roles. -/
def authority (t : Identity) : Authority.State Id Id Text where
  assigned userID roleID := (userID, roleID) ∈ t.userRoles
  grants := t.Grants
  active userID := ∃ u ∈ t.users, u.id = userID ∧ u.active = true

variable {t t' : Identity}

/-- The permissions of a user are those its roles grant. -/
theorem mem_userPermissionCodes {userID : Id} {code : Text} :
    code ∈ t.userPermissionCodes userID ↔ t.authority.Holds userID code := by
  simp only [userPermissionCodes, List.mem_dedup, List.mem_map, List.mem_filter, List.any_eq_true,
    Bool.and_eq_true, decide_eq_true_eq, List.contains_iff_mem]
  constructor
  · rintro ⟨p, ⟨hp, ⟨r, q⟩, hrp, rfl, hur⟩, rfl⟩
    exact ⟨r, hur, p, hp, hrp, rfl⟩
  · rintro ⟨r, hur, p, hp, hrp, rfl⟩
    exact ⟨p, ⟨hp, (r, p.id), hrp, rfl, hur⟩, rfl⟩

theorem mem_roleNamed {name : Text} {id : Id} :
    id ∈ t.roleNamed name ↔ ∃ r ∈ t.roles, r.name = name ∧ r.id = id := by
  simp [roleNamed, and_assoc]

theorem mem_permissionCoded {code : Text} {id : Id} :
    id ∈ t.permissionCoded code ↔ ∃ p ∈ t.permissions, p.code = code ∧ p.id = id := by
  simp [permissionCoded, and_assoc]

/-! ## Keys and references -/

/-- The constraints of the schema. -/
structure WellFormed (t : Identity) : Prop where
  userIDs : t.userIDs.Nodup
  emails : (t.users.map User.email).Nodup
  usernames : (t.users.map User.username).Nodup
  roleIDs : t.roleIDs.Nodup
  roleNames : (t.roles.map Role.name).Nodup
  permissionIDs : t.permissionIDs.Nodup
  codes : (t.permissions.map PermissionRow.code).Nodup
  rolePermissions : Linked t.roleIDs t.permissionIDs t.rolePermissions
  userRoles : Linked t.userIDs t.roleIDs t.userRoles

theorem WellFormed.exists_role (h : t.WellFormed) {r : Id} {code : Text} (hgrants : t.Grants r code) :
    ∃ role ∈ t.roles, role.id = r := by
  obtain ⟨p, -, hlink, -⟩ := hgrants
  exact List.mem_map.mp (h.rolePermissions.owner _ hlink)

/-- A role name is that of one role. -/
theorem WellFormed.roleNamed_name (h : t.WellFormed) {role : Role} (hrole : role ∈ t.roles) {id : Id} :
    id ∈ t.roleNamed role.name ↔ id = role.id := by
  rw [mem_roleNamed]
  constructor
  · rintro ⟨r, hr, hname, rfl⟩
    rw [List.inj_on_of_nodup_map h.roleNames hr hrole hname]
  · rintro rfl
    exact ⟨role, hrole, rfl, rfl⟩

/-! ## What the statements do -/

section Specs

theorem createUser_eq_ok {u : User} (h : t.createUser u = .ok t') :
    t' = { t with users := t.users ++ [u] } ∧
      ∀ v ∈ t.users, v.id ≠ u.id ∧ v.email ≠ u.email ∧ v.username ≠ u.username := by
  unfold createUser at h
  split at h
  next _ => cases h
  next hnew =>
    cases h
    refine ⟨rfl, ?_⟩
    simpa [and_assoc] using hnew

/-- The user that was created is there, and the others are as before. -/
theorem updateUser_eq_ok {id : Id} {name email : Text} {tenant : Option Text} {status : Text}
    (h : t.updateUser id name email tenant status = .ok t') :
    ∃ active, (∀ u ∈ t.users, u.id ≠ id → u.email ≠ email) ∧
      t' = t.updateUsers id fun u =>
        { u with name := name, email := email, tenant := tenant, active := active } := by
  unfold updateUser at h
  split at h
  next _ => cases h
  next _ =>
    split at h
    next _ => cases h
    next active _ =>
      split at h
      next _ => cases h
      next hfree =>
        cases h
        refine ⟨active, ?_, rfl⟩
        simpa using hfree

theorem setUserRoles_eq_ok {userID : Id} {roleNames : List Text} (h : t.setUserRoles userID roleNames = .ok t') :
    ∃ links, replaceLinks t.userIDs t.roleNamed userID roleNames t.userRoles = some links ∧
      t' = { t with userRoles := links } := by
  unfold setUserRoles at h
  split at h
  next _ => cases h
  next links hlinks =>
    cases h
    exact ⟨links, hlinks, rfl⟩

theorem setRolePermissions_eq_ok {roleID : Id} {codes : List Text}
    (h : t.setRolePermissions roleID codes = .ok t') :
    ∃ links, replaceLinks t.roleIDs t.permissionCoded roleID codes t.rolePermissions = some links ∧
      t' = { t with rolePermissions := links } := by
  unfold setRolePermissions at h
  split at h
  next _ => cases h
  next links hlinks =>
    cases h
    exact ⟨links, hlinks, rfl⟩

theorem createRole_eq_ok {id : Id} {name description : Text} (h : t.createRole id name description = .ok t') :
    t' = { t with roles := t.roles ++ [{ id := id, name := name, description := description }] } ∧
      ∀ r ∈ t.roles, r.id ≠ id ∧ r.name ≠ name := by
  unfold createRole at h
  split at h
  next _ => cases h
  next hnew =>
    cases h
    refine ⟨rfl, ?_⟩
    simpa using hnew

theorem deleteRole_eq_ok {id : Id} (h : t.deleteRole id = .ok t') :
    (∃ r ∈ t.roles, r.id = id ∧ r.isSystem = false) ∧
      t' = { t with
        roles := t.roles.filter fun r => !(r.id = id && !r.isSystem)
        rolePermissions := t.rolePermissions.filter fun l => l.1 ≠ id
        userRoles := t.userRoles.filter fun l => l.2 ≠ id } := by
  unfold deleteRole at h
  split at h
  next _ => cases h
  next hrole =>
    cases h
    refine ⟨?_, rfl⟩
    simpa using hrole

end Specs

/-! ## The statements keep the constraints -/

section Keep

/-- Users change, and keep their ids, emails and names apart. -/
theorem WellFormed.updateUsers (h : t.WellFormed) {id : Id} {set : User → User} (hid : ∀ u, (set u).id = u.id)
    (hname : ∀ u, (set u).username = u.username)
    (hemails : (((t.updateUsers id set).users).map User.email).Nodup) : (t.updateUsers id set).WellFormed := by
  have hids : (t.updateUsers id set).userIDs = t.userIDs := Rows.map_key_update hid
  have hnames : (t.updateUsers id set).users.map User.username = t.users.map User.username :=
    Rows.map_key_update hname
  exact { h with
    userIDs := hids ▸ h.userIDs
    emails := hemails
    usernames := hnames ▸ h.usernames
    userRoles := by
      rw [hids]
      exact h.userRoles }

theorem WellFormed.createUser (h : t.WellFormed) {u : User} (hok : t.createUser u = .ok t') :
    t'.WellFormed := by
  obtain ⟨rfl, hnew⟩ := createUser_eq_ok hok
  exact { h with
    userIDs := Rows.nodup_map_concat h.userIDs fun v hv => (hnew v hv).1
    emails := Rows.nodup_map_concat h.emails fun v hv => (hnew v hv).2.1
    usernames := Rows.nodup_map_concat h.usernames fun v hv => (hnew v hv).2.2
    userRoles := h.userRoles.mono (by simp [Identity.userIDs]) (List.Subset.refl _) }

theorem WellFormed.updateUser (h : t.WellFormed) {id : Id} {name email : Text} {tenant : Option Text}
    {status : Text} (hok : t.updateUser id name email tenant status = .ok t') : t'.WellFormed := by
  obtain ⟨active, hfree, rfl⟩ := updateUser_eq_ok hok
  refine h.updateUsers (fun _ => rfl) (fun _ => rfl) ?_
  exact Rows.nodup_map_update h.userIDs h.emails hfree fun _ => rfl

theorem WellFormed.setUserPassword (h : t.WellFormed) (id : Id) (hash : Text) :
    (t.setUserPassword id hash).WellFormed := by
  refine h.updateUsers (fun _ => rfl) (fun _ => rfl) ?_
  have hemails : (t.setUserPassword id hash).users.map User.email = t.users.map User.email :=
    Rows.map_key_update fun _ => rfl
  exact hemails ▸ h.emails

theorem WellFormed.setUserRoles (h : t.WellFormed) {userID : Id} {roleNames : List Text}
    (hok : t.setUserRoles userID roleNames = .ok t') : t'.WellFormed := by
  obtain ⟨links, hlinks, rfl⟩ := setUserRoles_eq_ok hok
  refine { h with userRoles := h.userRoles.replaceLinks ?_ hlinks }
  intro name _ id hid
  obtain ⟨r, hr, -, rfl⟩ := mem_roleNamed.mp hid
  exact List.mem_map_of_mem hr

theorem WellFormed.createRole (h : t.WellFormed) {id : Id} {name description : Text}
    (hok : t.createRole id name description = .ok t') : t'.WellFormed := by
  obtain ⟨rfl, hnew⟩ := createRole_eq_ok hok
  exact { h with
    roleIDs := Rows.nodup_map_concat h.roleIDs fun r hr => (hnew r hr).1
    roleNames := Rows.nodup_map_concat h.roleNames fun r hr => (hnew r hr).2
    rolePermissions := h.rolePermissions.mono (by simp [Identity.roleIDs]) (List.Subset.refl _)
    userRoles := h.userRoles.mono (List.Subset.refl _) (by simp [Identity.roleIDs]) }

theorem WellFormed.updateRoleDescription (h : t.WellFormed) (id : Id) (description : Text) :
    (t.updateRoleDescription id description).WellFormed := by
  have hids : (t.updateRoleDescription id description).roleIDs = t.roleIDs :=
    Rows.map_key_update fun _ => rfl
  have hnames : (t.updateRoleDescription id description).roles.map Role.name = t.roles.map Role.name :=
    Rows.map_key_update fun _ => rfl
  exact { h with
    roleIDs := hids ▸ h.roleIDs
    roleNames := hnames ▸ h.roleNames
    rolePermissions := by
      rw [hids]
      exact h.rolePermissions
    userRoles := by
      rw [hids]
      exact h.userRoles }

/-- A role that is deleted leaves no links behind. -/
theorem WellFormed.deleteRole (h : t.WellFormed) {id : Id} (hok : t.deleteRole id = .ok t') :
    t'.WellFormed := by
  obtain ⟨-, rfl⟩ := deleteRole_eq_ok hok
  -- a role with another id stays
  have hstays : ∀ r ∈ t.roleIDs, r ≠ id →
      r ∈ (t.roles.filter fun r => !(r.id = id && !r.isSystem)).map Role.id := by
    intro r hr hne
    obtain ⟨role, hrole, rfl⟩ := List.mem_map.mp hr
    exact List.mem_map_of_mem (List.mem_filter.mpr ⟨hrole, by simp [hne]⟩)
  exact { h with
    roleIDs := Rows.nodup_map_filter h.roleIDs _
    roleNames := Rows.nodup_map_filter h.roleNames _
    rolePermissions :=
      { h.rolePermissions.filter _ with
        owner := fun l hl => hstays _ (h.rolePermissions.owner l (List.mem_of_mem_filter hl))
          (by simpa using List.of_mem_filter hl) }
    userRoles :=
      { h.userRoles.filter _ with
        target := fun l hl => hstays _ (h.userRoles.target l (List.mem_of_mem_filter hl))
          (by simpa using List.of_mem_filter hl) } }

theorem WellFormed.setRolePermissions (h : t.WellFormed) {roleID : Id} {codes : List Text}
    (hok : t.setRolePermissions roleID codes = .ok t') : t'.WellFormed := by
  obtain ⟨links, hlinks, rfl⟩ := setRolePermissions_eq_ok hok
  refine { h with rolePermissions := h.rolePermissions.replaceLinks ?_ hlinks }
  intro code _ id hid
  obtain ⟨p, hp, -, rfl⟩ := mem_permissionCoded.mp hid
  exact List.mem_map_of_mem hp

end Keep

end Identity

end DDAG.Store
