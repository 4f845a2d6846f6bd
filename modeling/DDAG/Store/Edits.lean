import DDAG.Store.Catalog
import Mathlib.Data.List.MinMax

/-!
# Edits of published APIs

`PublishAPI` and `UpdateAPIWithParameters` of `internal/store/catalog.go` on the
catalog.  A publish writes a snapshot, and an edit leaves the snapshots alone.  But an
edit also takes a published API back to a draft, and the snapshots of a draft are not
listed.

`snapshot_listed_iff` says what edits do to an API that was published: the list has its
snapshot exactly until the first edit of this API.
-/

namespace DDAG.Store

open Models AdminSvc Rows Machine

/-! ## Publishes -/

/-- `COALESCE(MAX(revision), 0) + 1`. -/
def Catalog.nextRevision (c : Catalog) (id : Id) : Nat :=
  ((c.revisions.filter fun r => r.apiDefinitionID = id).map RevisionRow.revision).foldr max 0 + 1

theorem Catalog.lt_nextRevision {c : Catalog} {r : RevisionRow} (hr : r ∈ c.revisions) :
    r.revision < c.nextRevision r.apiDefinitionID := by
  refine Nat.lt_succ_of_le (List.le_max_of_le' 0 ?_ le_rfl)
  exact List.mem_map.mpr ⟨r, List.mem_filter.mpr ⟨hr, decide_eq_true rfl⟩, rfl⟩

/-- The row after `UPDATE .. SET status='PUBLISHED' WHERE id=$1 AND status='APPROVED'`. -/
def publishRow (id : Id) (a : ApiRow) : ApiRow :=
  if a.id = id ∧ a.status = .approved then { a with status := .published } else a

theorem publishRow_toDefinition (id : Id) (a : ApiRow) :
    (publishRow id a).toDefinition = a.toDefinition := by
  unfold publishRow
  split <;> rfl

/-- The revision `PublishAPI` writes for a definition that was read. -/
def Catalog.newRevision (c : Catalog) (d : Definition) : RevisionRow :=
  { apiDefinitionID := d.id, revision := c.nextRevision d.id, snapshot := d }

/-- The transaction of `PublishAPI`, undone unless the row is approved. -/
def Catalog.publishAPI (c : Catalog) (d : Definition) : Option Catalog :=
  if c.apis.any fun a => a.id = d.id && a.status = .approved then
    some
      { apis := c.apis.map (publishRow d.id)
        revisions := c.revisions ++ [c.newRevision d]
        ids_nodup := by
          have hids : (c.apis.map (publishRow d.id)).map (fun a => a.id) = c.apis.map fun a => a.id := by
            simp [publishRow_toDefinition]
          rw [hids]
          exact c.ids_nodup
        routes_nodup := by
          have hroutes : (c.apis.map (publishRow d.id)).map ApiRow.route = c.apis.map ApiRow.route := by
            simp [ApiRow.route, publishRow_toDefinition]
          rw [hroutes]
          exact c.routes_nodup
        revisions_nodup := by
          rw [List.map_append, List.map_singleton]
          refine List.nodup_append.mpr ⟨c.revisions_nodup, List.nodup_singleton _, ?_⟩
          intro k hk k' hk' heq
          obtain ⟨r, hr, rfl⟩ := List.mem_map.mp hk
          rw [List.mem_singleton.mp hk'] at heq
          -- the new number is larger than those of all revisions of the API
          have hid : r.apiDefinitionID = d.id := congrArg Prod.fst heq
          have hrev : r.revision = c.nextRevision d.id := congrArg Prod.snd heq
          have hlt := Catalog.lt_nextRevision hr
          rw [hid, hrev] at hlt
          exact absurd hlt (lt_irrefl _)
        snapshot_id := by
          intro r hr
          rcases List.mem_append.mp hr with hold | hnew
          · exact c.snapshot_id r hold
          · rw [List.mem_singleton.mp hnew]
            rfl }
  else none

/-- The revision is the latest of its API, which is published. -/
structure Catalog.Current (c : Catalog) (r : RevisionRow) : Prop where
  mem : r ∈ c.revisions
  latest : c.Latest r
  live : c.isLive r.apiDefinitionID = true

/-- A publish makes its revision current. -/
theorem publishAPI_current {c c' : Catalog} {d : Definition} (h : c.publishAPI d = some c') :
    c'.Current (c.newRevision d) := by
  unfold Catalog.publishAPI at h
  split at h
  next happroved =>
    cases h
    refine ⟨List.mem_append_right _ (List.mem_singleton_self _), ?_, ?_⟩
    · intro s hs hid
      rcases List.mem_append.mp hs with hold | hnew
      · have hlt := Catalog.lt_nextRevision hold
        rw [hid] at hlt
        exact hlt.le
      · rw [List.mem_singleton.mp hnew]
    · obtain ⟨a, ha, hrow⟩ := List.any_eq_true.mp happroved
      simp only [Bool.and_eq_true, decide_eq_true_eq] at hrow
      refine Catalog.isLive_iff.mpr ⟨publishRow d.id a, List.mem_map_of_mem ha, ?_⟩
      rw [publishRow, if_pos hrow]
      exact ⟨hrow.1, rfl⟩
  next _ => cases h

/-! ## Edits -/

/-- An edit sent to `updateAPI`, with the API it is for. -/
structure Edit where
  api : Id
  input : APIInput

/-- The row after the statement `UPDATE api_definitions`. -/
def editRow (id : Id) (content : Content) (a : ApiRow) : ApiRow :=
  if a.id = id then
    { a with content := content, status := if a.status = .published then .draft else a.status }
  else a

theorem editRow_id (id : Id) (content : Content) (a : ApiRow) : (editRow id content a).id = a.id := by
  unfold editRow
  split <;> rfl

/-- The transaction of `UpdateAPIWithParameters`, undone if there is no row or a key
is no longer unique. -/
def Catalog.updateAPIWithParameters (c : Catalog) (id : Id) (content : Content) : Option Catalog :=
  if h : ((c.apis.map (editRow id content)).map ApiRow.route).Nodup then
    if (c.apis.any fun a => a.id = id) ∧ (content.parameters.map APIParameter.name).Nodup then
      some
        { apis := c.apis.map (editRow id content)
          revisions := c.revisions
          ids_nodup := by
            have hids : (c.apis.map (editRow id content)).map (fun a => a.id) =
                c.apis.map fun a => a.id := by
              simp [editRow_id]
            rw [hids]
            exact c.ids_nodup
          routes_nodup := h
          revisions_nodup := c.revisions_nodup
          snapshot_id := c.snapshot_id }
    else none
  else none

/-- `updateAPI`.  An edit that is refused changes nothing. -/
def Catalog.updateAPI (c : Catalog) (e : Edit) : Option Catalog :=
  e.input.content.bind (c.updateAPIWithParameters e.api)

section Edits

variable {c c' : Catalog} {e : Edit}

/-- What an edit that is committed does. -/
theorem updateAPI_cases (h : c.updateAPI e = some c') :
    c'.revisions = c.revisions ∧ ∃ content, c'.apis = c.apis.map (editRow e.api content) := by
  obtain ⟨content, -, hupdate⟩ := Option.bind_eq_some_iff.mp h
  unfold Catalog.updateAPIWithParameters at hupdate
  split at hupdate
  next _ =>
    split at hupdate
    next _ =>
      cases hupdate
      exact ⟨rfl, content, rfl⟩
    next _ => cases hupdate
  next _ => cases hupdate

/-- An API that is edited is not published. -/
theorem editRow_status_ne (id : Id) (content : Content) {a : ApiRow} (h : a.id = id) :
    (editRow id content a).status ≠ .published := by
  rw [editRow, if_pos h]
  simp only
  split
  next _ => exact nofun
  next hne => exact hne

/-- An edit takes its API off the list and no other. -/
theorem isLive_updateAPI (h : c.updateAPI e = some c') (id : Id) :
    c'.isLive id = true ↔ c.isLive id = true ∧ e.api ≠ id := by
  obtain ⟨-, content, hapis⟩ := updateAPI_cases h
  rw [Catalog.isLive_iff, Catalog.isLive_iff, hapis]
  constructor
  · rintro ⟨a', ha', rfl, hstatus⟩
    obtain ⟨a, ha, rfl⟩ := List.mem_map.mp ha'
    have hother : a.id ≠ e.api := fun heq => editRow_status_ne e.api content heq hstatus
    have hsame : editRow e.api content a = a := if_neg hother
    rw [hsame] at hstatus ⊢
    exact ⟨⟨a, ha, rfl, hstatus⟩, hother.symm⟩
  · rintro ⟨⟨a, ha, rfl, hstatus⟩, hne⟩
    have hsame : editRow e.api content a = a := if_neg hne.symm
    exact ⟨a, List.mem_map.mpr ⟨a, ha, hsame⟩, rfl, hstatus⟩

/-- What a sequence of edits leaves published. -/
theorem runs_updateAPI {es : List Edit} (h : runs Catalog.updateAPI c es = some c') :
    c'.revisions = c.revisions ∧
      ∀ id, c'.isLive id = true ↔ c.isLive id = true ∧ ∀ e ∈ es, e.api ≠ id := by
  induction es generalizing c with
  | nil =>
      cases h
      simp
  | cons e es ih =>
      rw [runs, List.foldlM_cons, Option.bind_eq_bind, Option.bind_eq_some_iff] at h
      obtain ⟨d, hd, hrest⟩ := h
      obtain ⟨hrevisions, hlive⟩ := ih hrest
      refine ⟨hrevisions.trans (updateAPI_cases hd).1, fun id => ?_⟩
      rw [hlive, isLive_updateAPI hd]
      simp only [List.mem_cons, forall_eq_or_imp, and_assoc]

end Edits

/-! ## The list after edits -/

/-- The definitions of one API in a list. -/
def definitionsOf (id : Id) (out : List Definition) : List Definition := out.filter (·.id = id)

/-- The latest snapshot of an API is its one definition in the list exactly if the API
is published. -/
theorem definitionsOf_eq_iff {before : Text → Text → Prop} {c : Catalog} {out : List Definition}
    (h : ListPublishedAPIs before c out) {r : RevisionRow} (hr : r ∈ c.revisions)
    (hlatest : c.Latest r) :
    definitionsOf r.apiDefinitionID out = [r.snapshot] ↔ c.isLive r.apiDefinitionID = true := by
  have hid := c.snapshot_id r hr
  constructor
  · intro hone
    have hmem : r.snapshot ∈ definitionsOf r.apiDefinitionID out := by
      rw [hone]
      exact List.mem_singleton_self _
    have hout := (List.mem_filter.mp hmem).1
    exact hid ▸ h.sound.2 _ (List.mem_map_of_mem hout)
  · intro hlive
    -- there is a snapshot, so the list is made of snapshots
    rcases h.cases with ⟨hnone, -⟩ | ⟨-, hsnapshots⟩
    · rw [hnone r hr] at hlive
      cases hlive
    · have hout := hsnapshots.mem_iff.mpr ⟨r, hr, hlive, hlatest, rfl⟩
      rw [definitionsOf, ← hid]
      exact filter_key_eq_singleton hsnapshots.ids_nodup hout

/-- After edits the snapshot of the current revision is the one definition of its API in
the list exactly if none of the edits was of this API. -/
theorem snapshot_listed_iff {before : Text → Text → Prop} {c c' : Catalog} {r : RevisionRow}
    (hcurrent : c.Current r) {es : List Edit} (hrun : runs Catalog.updateAPI c es = some c')
    {out : List Definition} (hout : ListPublishedAPIs before c' out) :
    definitionsOf r.apiDefinitionID out = [r.snapshot] ↔ ∀ e ∈ es, e.api ≠ r.apiDefinitionID := by
  obtain ⟨hrevisions, hlive⟩ := runs_updateAPI hrun
  have hlatest : c'.Latest r := by
    intro s hs
    exact hcurrent.latest s (hrevisions ▸ hs)
  rw [definitionsOf_eq_iff hout (hrevisions ▸ hcurrent.mem) hlatest, hlive,
    and_iff_right hcurrent.live]

/-- An edit that replaces the query of the API. -/
def newQuery (id : Id) (path : String) : Edit where
  api := id
  input :=
    { path := path.toList, method := "GET".toList, databaseConnectionID := 1
      connectorType := "postgres".toList, queryTemplate := "SELECT 2".toList
      responseMapping := .absent, requiredScope := [], defaultLimit := 0, maxLimit := 0
      isWrite := false, parameters := [] }

/-- An API that is live with its first revision, and a draft. -/
def liveCatalog : Catalog where
  apis := [rowA, { rowB with status := .draft }]
  revisions := [firstRevision rowA]
  ids_nodup := by decide
  routes_nodup := by decide
  revisions_nodup := firstRevision_nodup rowA
  snapshot_id := firstRevision_id rowA

/-- It was approved and then published. -/
def approvedCatalog : Catalog where
  apis := [{ rowA with status := .approved }, { rowB with status := .draft }]
  revisions := []
  ids_nodup := by decide
  routes_nodup := by decide
  revisions_nodup := List.nodup_nil
  snapshot_id := nofun

theorem approvedCatalog_publishAPI :
    approvedCatalog.publishAPI rowA.toDefinition = some liveCatalog :=
  rfl

theorem liveCatalog_current : liveCatalog.Current (firstRevision rowA) :=
  publishAPI_current approvedCatalog_publishAPI

/-- Where no API is published nothing is listed. -/
theorem lists_nothing (before : Text → Text → Prop) {c : Catalog}
    (h : ∀ id, c.isLive id = false) : ListPublishedAPIs before c [] := by
  have hsnapshots : c.revisions.filter (fun r => c.isLive r.apiDefinitionID) = [] := by
    rw [List.filter_eq_nil_iff]
    intro r _
    simp [h]
  have hrows : c.apis.filter (fun a => a.status = .published) = [] := by
    rw [List.filter_eq_nil_iff]
    intro a ha hstatus
    have hlive := Catalog.isLive_iff.mpr ⟨a, ha, rfl, of_decide_eq_true hstatus⟩
    rw [h] at hlive
    cases hlive
  refine ⟨[], ⟨[], ⟨?_, .nil⟩, rfl⟩, [], ⟨?_, .nil⟩, rfl⟩
  · rw [hsnapshots]
  · rw [hrows]

theorem liveCatalog_isLive {id : Id} (h : liveCatalog.isLive id = true) : id = 1 := by
  obtain ⟨a, ha, rfl, hstatus⟩ := Catalog.isLive_iff.mp h
  rcases List.mem_cons.mp ha with rfl | ha
  · rfl
  · rw [List.mem_singleton.mp ha] at hstatus
    cases hstatus

/-- One edit of the live API takes its route off the list. -/
theorem edit_removes_route :
    approvedCatalog.publishAPI rowA.toDefinition = some liveCatalog ∧
      ListPublishedAPIs (fun _ _ => True) liveCatalog [rowA.toDefinition] ∧
      ∃ c', runs Catalog.updateAPI liveCatalog [newQuery 1 "/a"] = some c' ∧
        ListPublishedAPIs (fun _ _ => True) c' [] := by
  have hcommits : (runs Catalog.updateAPI liveCatalog [newQuery 1 "/a"]).isSome = true := by
    decide +kernel
  obtain ⟨c', hrun⟩ := Option.isSome_iff_exists.mp hcommits
  have hlisted := lists_only_revision (fun _ _ => True) liveCatalog
    (firstRevision rowA) rfl (by decide)
  refine ⟨approvedCatalog_publishAPI, hlisted, c', hrun, lists_nothing _ fun id => ?_⟩
  by_contra hlive
  obtain ⟨hbefore, hother⟩ := ((runs_updateAPI hrun).2 id).mp (eq_true_of_ne_false hlive)
  exact hother _ List.mem_cons_self (liveCatalog_isLive hbefore).symm

/-- An edit of the draft leaves it there. -/
theorem edit_of_draft_keeps_route :
    ∃ c', runs Catalog.updateAPI liveCatalog [newQuery 2 "/b"] = some c' ∧
      ListPublishedAPIs (fun _ _ => True) c' [rowA.toDefinition] ∧
      definitionsOf 1 [rowA.toDefinition] = [rowA.toDefinition] := by
  have hcommits : (runs Catalog.updateAPI liveCatalog [newQuery 2 "/b"]).isSome = true := by
    decide +kernel
  obtain ⟨c', hrun⟩ := Option.isSome_iff_exists.mp hcommits
  obtain ⟨hrevisions, hlive⟩ := runs_updateAPI hrun
  have hlisted := lists_only_revision (fun _ _ => True) c' (firstRevision rowA)
    hrevisions ((hlive 1).mpr ⟨by decide, by decide⟩)
  refine ⟨c', hrun, hlisted, (snapshot_listed_iff liveCatalog_current hrun hlisted).mpr ?_⟩
  intro e he
  rw [List.mem_singleton.mp he]
  exact nofun

end DDAG.Store
