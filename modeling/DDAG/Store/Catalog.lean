import DDAG.AdminSvc.Lifecycle
import DDAG.Lib.Rows

/-!
# The catalog of APIs

The tables `api_definitions` and `api_revisions` with `ListPublishedAPIs` of
`internal/store/catalog.go`.  What the gateway routes is listed from the snapshots of
the revisions of the APIs that are published, and from the definitions themselves if
there is no such snapshot at all.

`listed_complete_iff` says when the list has one definition for each published API:
when all of them have revisions, or none.
-/

namespace DDAG.Store

open Models AdminSvc Rows Machine

/-! ## Tables -/

/-- A definition with its id and parameters. -/
structure Definition where
  id : Id
  content : Content
deriving DecidableEq

/-- A row of `api_definitions`, with its parameters. -/
structure ApiRow extends Definition where
  status : Status
deriving DecidableEq

/-- A row of `api_revisions`. -/
structure RevisionRow where
  apiDefinitionID : Id
  revision : Nat
  snapshot : Definition
deriving DecidableEq

def ApiRow.route (a : ApiRow) : Text × Text :=
  (a.content.definition.method, a.content.definition.path)

/-- The number of a revision. -/
def RevisionRow.key (r : RevisionRow) : Id × Nat := (r.apiDefinitionID, r.revision)

/-- The tables, with the keys the schema declares unique.  A snapshot is the JSON of
the API it is a revision of. -/
structure Catalog where
  apis : List ApiRow
  revisions : List RevisionRow
  ids_nodup : (apis.map fun a => a.id).Nodup
  routes_nodup : (apis.map ApiRow.route).Nodup
  revisions_nodup : (revisions.map RevisionRow.key).Nodup
  snapshot_id : ∀ r ∈ revisions, r.snapshot.id = r.apiDefinitionID

def Catalog.isLive (c : Catalog) (id : Id) : Bool :=
  c.apis.any fun a => a.id = id && a.status = .published

theorem Catalog.isLive_iff {c : Catalog} {id : Id} :
    c.isLive id = true ↔ ∃ a ∈ c.apis, a.id = id ∧ a.status = .published := by
  simp [isLive]

/-! ## The list of published APIs -/

/-- `ORDER BY r.api_definition_id, r.revision DESC`. -/
def newestFirst (r s : RevisionRow) : Prop :=
  r.apiDefinitionID < s.apiDefinitionID ∨
    (r.apiDefinitionID = s.apiDefinitionID ∧ s.revision ≤ r.revision)

theorem newestFirst_iff {r s : RevisionRow} (h : r.apiDefinitionID = s.apiDefinitionID) :
    newestFirst r s ↔ s.revision ≤ r.revision := by
  simp [newestFirst, h]

/-- A result of `listPublishedRevisionSnapshotsSQL`. -/
def PublishedSnapshots (c : Catalog) (out : List Definition) : Prop :=
  ∃ rows, Selected (fun r => c.isLive r.apiDefinitionID) newestFirst c.revisions rows ∧
    out = (distinctOn RevisionRow.apiDefinitionID rows).map RevisionRow.snapshot

section List

-- the collation of the database
variable (before : Text → Text → Prop)

/-- A result of the query for APIs without revisions. -/
def PublishedRows (c : Catalog) (out : List Definition) : Prop :=
  ∃ rows, Selected (fun a => a.status = .published)
      (fun a b => before a.content.definition.path b.content.definition.path) c.apis rows ∧
    out = rows.map ApiRow.toDefinition

/-- A result of `ListPublishedAPIs`. -/
def ListPublishedAPIs (c : Catalog) (out : List Definition) : Prop :=
  ∃ snapshots, PublishedSnapshots c snapshots ∧
    if snapshots = [] then PublishedRows before c out else out = snapshots

end List

/-- No revision of the same API is newer. -/
def Catalog.Latest (c : Catalog) (r : RevisionRow) : Prop :=
  ∀ s ∈ c.revisions, s.apiDefinitionID = r.apiDefinitionID → s.revision ≤ r.revision

section Snapshots

variable {c : Catalog} {out : List Definition}

/-- What is listed of an API that is published is its latest snapshot. -/
theorem PublishedSnapshots.mem_iff (h : PublishedSnapshots c out) {d : Definition} :
    d ∈ out ↔ ∃ r ∈ c.revisions, c.isLive r.apiDefinitionID = true ∧ c.Latest r ∧ r.snapshot = d := by
  obtain ⟨rows, hrows, rfl⟩ := h
  have hanti : ∀ r ∈ rows, ∀ s ∈ rows, r.apiDefinitionID = s.apiDefinitionID →
      newestFirst r s → newestFirst s r → r = s := by
    intro r hr s hs hid hrs hsr
    have hrev : r.revision = s.revision :=
      le_antisymm ((newestFirst_iff hid.symm).mp hsr) ((newestFirst_iff hid).mp hrs)
    exact List.inj_on_of_nodup_map c.revisions_nodup (hrows.mem_iff.mp hr).1
      (hrows.mem_iff.mp hs).1 (Prod.ext hid hrev)
  simp only [List.mem_map, mem_distinctOn hrows.sorted hanti]
  constructor
  · rintro ⟨r, ⟨hr, hleast⟩, rfl⟩
    obtain ⟨hmem, hlive⟩ := hrows.mem_iff.mp hr
    refine ⟨r, hmem, hlive, fun s hs hid => ?_, rfl⟩
    rcases hleast s (hrows.mem_iff.mpr ⟨hs, hid ▸ hlive⟩) hid with rfl | hrank
    · exact le_rfl
    · exact (newestFirst_iff hid.symm).mp hrank
  · rintro ⟨r, hmem, hlive, hlatest, rfl⟩
    refine ⟨r, ⟨hrows.mem_iff.mpr ⟨hmem, hlive⟩, fun s hs hid => .inr ?_⟩, rfl⟩
    exact (newestFirst_iff hid.symm).mpr (hlatest s (hrows.mem_iff.mp hs).1 hid)

theorem PublishedSnapshots.ids (h : PublishedSnapshots c out) :
    ∃ rows, Selected (fun r => c.isLive r.apiDefinitionID) newestFirst c.revisions rows ∧
      out.map Definition.id =
        (distinctOn RevisionRow.apiDefinitionID rows).map RevisionRow.apiDefinitionID := by
  obtain ⟨rows, hrows, rfl⟩ := h
  refine ⟨rows, hrows, ?_⟩
  rw [List.map_map]
  refine List.map_congr_left fun r hr => ?_
  exact c.snapshot_id r (hrows.mem_iff.mp (distinctOn_subset hr)).1

theorem PublishedSnapshots.ids_nodup (h : PublishedSnapshots c out) :
    (out.map Definition.id).Nodup := by
  obtain ⟨rows, -, hids⟩ := h.ids
  rw [hids]
  exact distinctOn_nodup _ _

/-- The APIs that are listed from snapshots: those that are published and have one. -/
theorem PublishedSnapshots.mem_ids (h : PublishedSnapshots c out) {id : Id} :
    id ∈ out.map Definition.id ↔
      c.isLive id = true ∧ id ∈ c.revisions.map RevisionRow.apiDefinitionID := by
  obtain ⟨rows, hrows, hids⟩ := h.ids
  rw [hids, mem_map_distinctOn, List.mem_map, List.mem_map]
  constructor
  · rintro ⟨r, hr, rfl⟩
    obtain ⟨hmem, hlive⟩ := hrows.mem_iff.mp hr
    exact ⟨hlive, r, hmem, rfl⟩
  · rintro ⟨hlive, r, hmem, rfl⟩
    exact ⟨r, hrows.mem_iff.mpr ⟨hmem, hlive⟩, rfl⟩

end Snapshots

section Rows

variable {before : Text → Text → Prop} {c : Catalog} {out : List Definition}

theorem PublishedRows.ids_nodup (h : PublishedRows before c out) : (out.map Definition.id).Nodup := by
  obtain ⟨rows, hrows, rfl⟩ := h
  rw [List.map_map]
  have hperm : (rows.map fun a => a.id).Perm ((c.apis.filter fun a => a.status = .published).map fun a => a.id) :=
    hrows.perm.map _
  exact hperm.nodup_iff.mpr (c.ids_nodup.sublist (List.filter_sublist.map _))

theorem PublishedRows.mem_ids (h : PublishedRows before c out) {id : Id} :
    id ∈ out.map Definition.id ↔ c.isLive id = true := by
  obtain ⟨rows, hrows, rfl⟩ := h
  rw [List.map_map, List.mem_map, Catalog.isLive_iff]
  constructor
  · rintro ⟨a, ha, rfl⟩
    obtain ⟨hmem, hstatus⟩ := hrows.mem_iff.mp ha
    exact ⟨a, hmem, rfl, of_decide_eq_true hstatus⟩
  · rintro ⟨a, hmem, rfl, hstatus⟩
    exact ⟨a, hrows.mem_iff.mpr ⟨hmem, decide_eq_true hstatus⟩, rfl⟩

/-- The list comes from the rows if no published API has a revision, and from the
snapshots otherwise. -/
theorem ListPublishedAPIs.cases (h : ListPublishedAPIs before c out) :
    ((∀ r ∈ c.revisions, c.isLive r.apiDefinitionID = false) ∧ PublishedRows before c out) ∨
      ((∃ r ∈ c.revisions, c.isLive r.apiDefinitionID = true) ∧ PublishedSnapshots c out) := by
  obtain ⟨snapshots, hsnapshots, hout⟩ := h
  split at hout
  next hnil =>
    subst hnil
    refine .inl ⟨fun r hr => ?_, hout⟩
    have hnone : r.apiDefinitionID ∉ ([] : List Definition).map Definition.id := nofun
    rw [hsnapshots.mem_ids] at hnone
    by_contra hlive
    exact hnone ⟨eq_true_of_ne_false hlive, List.mem_map_of_mem hr⟩
  next hcons =>
    subst hout
    obtain ⟨d, hd⟩ := List.exists_mem_of_ne_nil _ hcons
    obtain ⟨r, hr, hlive, -⟩ := hsnapshots.mem_iff.mp hd
    exact .inr ⟨⟨r, hr, hlive⟩, hsnapshots⟩

/-- Only published APIs are listed, and each at most once. -/
theorem ListPublishedAPIs.sound (h : ListPublishedAPIs before c out) :
    (out.map Definition.id).Nodup ∧ ∀ id ∈ out.map Definition.id, c.isLive id = true := by
  rcases h.cases with ⟨-, hrows⟩ | ⟨-, hsnapshots⟩
  · exact ⟨hrows.ids_nodup, fun id hid => hrows.mem_ids.mp hid⟩
  · exact ⟨hsnapshots.ids_nodup, fun id hid => (hsnapshots.mem_ids.mp hid).1⟩

/-! ## Completeness -/

/-- One definition for each published API, and none for any other. -/
structure Complete (c : Catalog) (out : List Definition) : Prop where
  once : (out.map Definition.id).Nodup
  live : ∀ id, id ∈ out.map Definition.id ↔ c.isLive id = true

def Catalog.Revised (c : Catalog) (a : ApiRow) : Prop := ∃ r ∈ c.revisions, r.apiDefinitionID = a.id

/-- The list is complete exactly if all published APIs have revisions, or none. -/
theorem listed_complete_iff (h : ListPublishedAPIs before c out) :
    Complete c out ↔
      (∀ a ∈ c.apis, a.status = .published → c.Revised a) ∨
        (∀ a ∈ c.apis, a.status = .published → ¬c.Revised a) := by
  rcases h.cases with ⟨hnone, hrows⟩ | ⟨⟨r, hr, hlive⟩, hsnapshots⟩
  · refine iff_of_true ⟨hrows.ids_nodup, fun id => hrows.mem_ids⟩ (.inr ?_)
    rintro a ha hstatus ⟨r, hr, hid⟩
    have hfalse := hnone r hr
    rw [hid, Catalog.isLive_iff.mpr ⟨a, ha, rfl, hstatus⟩] at hfalse
    cases hfalse
  · constructor
    · intro hcomplete
      refine .inl fun a ha hstatus => ?_
      have hmem := (hcomplete.live a.id).mpr (Catalog.isLive_iff.mpr ⟨a, ha, rfl, hstatus⟩)
      exact List.mem_map.mp (hsnapshots.mem_ids.mp hmem).2
    · intro hor
      refine ⟨hsnapshots.ids_nodup, fun id => hsnapshots.mem_ids.trans (and_iff_left_of_imp ?_)⟩
      intro hid
      obtain ⟨a, ha, rfl, hstatus⟩ := Catalog.isLive_iff.mp hid
      rcases hor with hall | hnone
      · exact List.mem_map.mpr (hall a ha hstatus)
      · -- one published API has a revision
        obtain ⟨b, hb, hbid, hbstatus⟩ := Catalog.isLive_iff.mp hlive
        exact absurd ⟨r, hr, hbid.symm⟩ (hnone b hb hbstatus)

end Rows

def publishedAt (id : Id) (path : String) : ApiRow :=
  { id := id, content := { selecting "SELECT 1" with definition.path := path.toList }
    status := .published }

def firstRevision (a : ApiRow) : RevisionRow :=
  { apiDefinitionID := a.id, revision := 1, snapshot := a.toDefinition }

theorem firstRevision_nodup (a : ApiRow) : ([firstRevision a].map RevisionRow.key).Nodup :=
  List.nodup_singleton _

theorem firstRevision_id (a : ApiRow) : ∀ r ∈ [firstRevision a], r.snapshot.id = r.apiDefinitionID := by
  intro r hr
  rw [List.mem_singleton.mp hr]
  rfl

def rowA : ApiRow := publishedAt 1 "/a"
def rowB : ApiRow := publishedAt 2 "/b"

/-- An API with a revision, as a publish leaves it. -/
def revisedCatalog : Catalog where
  apis := [rowA]
  revisions := [firstRevision rowA]
  ids_nodup := by decide
  routes_nodup := by decide
  revisions_nodup := firstRevision_nodup rowA
  snapshot_id := firstRevision_id rowA

/-- The same with a second API that was published without one. -/
def mixedCatalog : Catalog where
  apis := [rowA, rowB]
  revisions := [firstRevision rowA]
  ids_nodup := by decide
  routes_nodup := by decide
  revisions_nodup := firstRevision_nodup rowA
  snapshot_id := firstRevision_id rowA

/-- A catalog whose only revision is that of a published API lists its snapshot. -/
theorem lists_only_revision (before : Text → Text → Prop) (c : Catalog) (r : RevisionRow)
    (hrevisions : c.revisions = [r]) (hlive : c.isLive r.apiDefinitionID = true) :
    ListPublishedAPIs before c [r.snapshot] := by
  have hfilter : c.revisions.filter (fun r => c.isLive r.apiDefinitionID) = [r] := by
    simp [hrevisions, hlive]
  refine ⟨[r.snapshot], ⟨[r], ⟨?_, List.pairwise_singleton _ _⟩, rfl⟩, rfl⟩
  rw [hfilter]

/-- The second API is published and is not listed. -/
theorem unrevised_api_missing :
    ListPublishedAPIs (fun _ _ => True) mixedCatalog [rowA.toDefinition] ∧
      mixedCatalog.isLive 2 = true ∧
      ¬Complete mixedCatalog [rowA.toDefinition] := by
  refine ⟨lists_only_revision _ mixedCatalog (firstRevision rowA) rfl (by decide),
    by decide, fun hcomplete => ?_⟩
  have hlisted := (hcomplete.live 2).mpr (by decide)
  revert hlisted
  decide

/-- Without it the list is complete. -/
theorem revised_api_listed : Complete revisedCatalog [rowA.toDefinition] := by
  have hlisted := lists_only_revision (fun _ _ => True) revisedCatalog (firstRevision rowA) rfl
    (by decide)
  refine (listed_complete_iff hlisted).mpr (.inl fun a ha _ => ?_)
  rw [List.mem_singleton.mp ha]
  exact ⟨firstRevision rowA, List.mem_singleton_self _, rfl⟩

end DDAG.Store
