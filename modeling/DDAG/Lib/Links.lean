import Mathlib.Data.List.Nodup

/-!
# Link tables

A link table relates rows of two tables by their keys: pairs of an owner and a target, each pair at
most once, between keys that exist (`Linked`).  A statement that links an owner to the targets it
finds leaves pairs alone that are there already, and fails if it finds some and the owner does not
exist.

`replaceLinks` is the transaction that gives an owner new targets by their names.  It succeeds
unless the owner is missing (`replaceLinks_isSome`), and then the owner has exactly the targets of
the names, and the other owners theirs (`mem_replaceLinks`).
-/

namespace Links

variable {α β ν : Type*}

/-- The links are between keys that exist, and each is there once. -/
structure Linked (owners : List α) (targets : List β) (links : List (α × β)) : Prop where
  nodup : links.Nodup
  owner : ∀ l ∈ links, l.1 ∈ owners
  target : ∀ l ∈ links, l.2 ∈ targets

section Linked

variable {owners owners' : List α} {targets targets' : List β} {links : List (α × β)}

theorem Linked.filter (h : Linked owners targets links) (keep : α × β → Bool) :
    Linked owners targets (links.filter keep) where
  nodup := h.nodup.filter keep
  owner l hl := h.owner l (List.mem_of_mem_filter hl)
  target l hl := h.target l (List.mem_of_mem_filter hl)

/-- Links stay links when rows are added. -/
theorem Linked.mono (h : Linked owners targets links)
    (howners : owners ⊆ owners') (htargets : targets ⊆ targets') : Linked owners' targets' links where
  nodup := h.nodup
  owner l hl := howners (h.owner l hl)
  target l hl := htargets (h.target l hl)

end Linked

variable [DecidableEq α] [DecidableEq β]

/-- `INSERT .. ON CONFLICT DO NOTHING`. -/
def insertNew (links : List (α × β)) (l : α × β) : List (α × β) := if l ∈ links then links else links ++ [l]

/-- An owner is linked to what a query found. -/
def insertLinks (owners : List α) (owner : α) (found : List β) (links : List (α × β)) :
    Option (List (α × β)) :=
  if found = [] then some links
  else if owner ∈ owners then some ((found.map (owner, ·)).foldl insertNew links)
  else none

/-- `DELETE`, and an `INSERT` for each of the names. -/
def replaceLinks (owners : List α) (named : ν → List β) (owner : α) (names : List ν)
    (links : List (α × β)) : Option (List (α × β)) :=
  names.foldlM (fun links name => insertLinks owners owner (named name) links)
    (links.filter fun l => l.1 ≠ owner)

section Insert

variable {owners : List α} {targets : List β} {links links' : List (α × β)} {owner : α} {found : List β}

theorem mem_insertNew {l x : α × β} : x ∈ insertNew links l ↔ x ∈ links ∨ x = l := by
  unfold insertNew
  split
  next h =>
    constructor
    · exact .inl
    · rintro (hx | rfl)
      · exact hx
      · exact h
  next _ => simp

theorem nodup_insertNew {l : α × β} (h : links.Nodup) : (insertNew links l).Nodup := by
  unfold insertNew
  split
  next _ => exact h
  next hnew =>
    rw [← List.concat_eq_append]
    exact h.concat hnew

theorem mem_foldl_insertNew {new : List (α × β)} {x : α × β} :
    x ∈ new.foldl insertNew links ↔ x ∈ links ∨ x ∈ new := by
  induction new generalizing links with
  | nil => simp
  | cons l rest ih => rw [List.foldl_cons, ih, mem_insertNew, List.mem_cons, or_assoc]

theorem nodup_foldl_insertNew {new : List (α × β)} (h : links.Nodup) : (new.foldl insertNew links).Nodup := by
  induction new generalizing links with
  | nil => exact h
  | cons l rest ih => exact ih (nodup_insertNew h)

/-- What a statement that succeeds leaves. -/
theorem mem_insertLinks (h : insertLinks owners owner found links = some links') {x : α × β} :
    x ∈ links' ↔ x ∈ links ∨ (x.1 = owner ∧ x.2 ∈ found) := by
  unfold insertLinks at h
  split at h
  next hnone =>
    cases h
    simp [hnone]
  next _ =>
    split at h
    next _ =>
      cases h
      rw [mem_foldl_insertNew]
      refine or_congr_right ?_
      obtain ⟨a, b⟩ := x
      simp [eq_comm, and_comm]
    next _ => cases h

theorem owner_of_insertLinks (h : insertLinks owners owner found links = some links') {b : β}
    (hb : b ∈ found) : owner ∈ owners := by
  unfold insertLinks at h
  split at h
  next hnone => simp [hnone] at hb
  next _ =>
    split at h
    next howner => exact howner
    next _ => cases h

theorem insertLinks_isSome (h : owner ∈ owners) (found : List β) (links : List (α × β)) :
    ∃ links', insertLinks owners owner found links = some links' := by
  unfold insertLinks
  split
  next _ => exact ⟨links, rfl⟩
  next _ => exact ⟨_, rfl⟩

theorem Linked.insertLinks (h : Linked owners targets links) (hfound : ∀ b ∈ found, b ∈ targets)
    (hinsert : insertLinks owners owner found links = some links') : Linked owners targets links' where
  nodup := by
    unfold Links.insertLinks at hinsert
    split at hinsert
    next _ =>
      cases hinsert
      exact h.nodup
    next _ =>
      split at hinsert
      next _ =>
        cases hinsert
        exact nodup_foldl_insertNew h.nodup
      next _ => cases hinsert
  owner l hl := by
    rcases (mem_insertLinks hinsert).mp hl with hl | ⟨rfl, hb⟩
    · exact h.owner l hl
    · exact owner_of_insertLinks hinsert hb
  target l hl := by
    rcases (mem_insertLinks hinsert).mp hl with hl | ⟨-, hb⟩
    · exact h.target l hl
    · exact hfound _ hb

end Insert

section Replace

variable {owners : List α} {targets : List β} {named : ν → List β} {owner : α} {names : List ν}
  {links links' : List (α × β)}

theorem mem_foldlM_insertLinks
    (h : names.foldlM (fun links name => insertLinks owners owner (named name) links) links = some links')
    {x : α × β} : x ∈ links' ↔ x ∈ links ∨ (x.1 = owner ∧ ∃ name ∈ names, x.2 ∈ named name) := by
  induction names generalizing links with
  | nil =>
      cases h
      simp
  | cons name rest ih =>
      rw [List.foldlM_cons, Option.bind_eq_bind, Option.bind_eq_some_iff] at h
      obtain ⟨mid, hfirst, hrest⟩ := h
      rw [ih hrest, mem_insertLinks hfirst]
      simp only [List.mem_cons, exists_eq_or_imp]
      tauto

theorem mem_replaceLinks (h : replaceLinks owners named owner names links = some links') {x : α × β} :
    x ∈ links' ↔ (x.1 ≠ owner ∧ x ∈ links) ∨ (x.1 = owner ∧ ∃ name ∈ names, x.2 ∈ named name) := by
  rw [mem_foldlM_insertLinks h, List.mem_filter, decide_eq_true_eq, and_comm]

theorem replaceLinks_isSome (h : owner ∈ owners) (named : ν → List β) (names : List ν)
    (links : List (α × β)) : ∃ links', replaceLinks owners named owner names links = some links' := by
  unfold replaceLinks
  generalize links.filter (fun l => l.1 ≠ owner) = start
  induction names generalizing start with
  | nil => exact ⟨start, rfl⟩
  | cons name rest ih =>
      obtain ⟨mid, hfirst⟩ := insertLinks_isSome h (named name) start
      obtain ⟨links', hrest⟩ := ih mid
      refine ⟨links', ?_⟩
      rw [List.foldlM_cons, hfirst]
      exact hrest

theorem Linked.foldlM_insertLinks (h : Linked owners targets links)
    (hnamed : ∀ name ∈ names, ∀ b ∈ named name, b ∈ targets)
    (hinsert : names.foldlM (fun links name => Links.insertLinks owners owner (named name) links) links =
      some links') : Linked owners targets links' := by
  induction names generalizing links with
  | nil =>
      cases hinsert
      exact h
  | cons name rest ih =>
      rw [List.foldlM_cons, Option.bind_eq_bind, Option.bind_eq_some_iff] at hinsert
      obtain ⟨mid, hfirst, hrest⟩ := hinsert
      exact ih (h.insertLinks (hnamed name List.mem_cons_self) hfirst)
        (fun name hname => hnamed name (List.mem_cons_of_mem _ hname)) hrest

theorem Linked.replaceLinks (h : Linked owners targets links)
    (hnamed : ∀ name ∈ names, ∀ b ∈ named name, b ∈ targets)
    (hreplace : replaceLinks owners named owner names links = some links') : Linked owners targets links' :=
  (h.filter _).foldlM_insertLinks hnamed hreplace

end Replace

end Links
