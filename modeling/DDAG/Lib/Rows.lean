import Mathlib.Data.List.Sort

/-!
# Rows of tables

A table is a list of rows in no particular order.  A query with an order leaves
the order of rows that the order does not tell apart open, so its result is a
relation (`Selected`): any permutation of the rows it asks for in which each row
may stand before the later ones.

A stable sort is a function.  `sortDesc_head` says what its first element is: the
first of the elements with the largest key.

Two ways to lose or find rows: the first `n` rows of a list keep every row of a
kind exactly if no later row is of it (`take_covers_iff`), and a map filled from
rows with distinct keys finds each of them (`index_eq_some`), since a place written by
some of the rows holds what the last of them wrote (`foldl_last`).

`SELECT DISTINCT ON` keeps the first row of each key (`distinctOn`), which in sorted
rows is the least one (`mem_distinctOn`).

A client that asks for page after page, as long as the last one was full, has all rows
in the end (`collect_eq`).
-/

namespace Rows

variable {α : Type*}

/-! ## Queries -/

/-- A result of `SELECT .. WHERE cond ORDER BY le`. -/
structure Selected (cond : α → Bool) (le : α → α → Prop) (rows out : List α) : Prop where
  perm : out.Perm (rows.filter cond)
  sorted : out.Pairwise le

section Selected

variable {cond : α → Bool} {le : α → α → Prop} {rows out : List α}

theorem Selected.mem_iff (h : Selected cond le rows out) {r : α} :
    r ∈ out ↔ r ∈ rows ∧ cond r = true := by
  rw [h.perm.mem_iff, List.mem_filter]

/-- The first row stands before every other one. -/
theorem Selected.head (h : Selected cond le rows out) {r : α} (hr : out.head? = some r) :
    (r ∈ rows ∧ cond r = true) ∧ ∀ s ∈ rows, cond s = true → s = r ∨ le r s := by
  obtain ⟨rest, rfl⟩ : ∃ rest, out = r :: rest := by
    cases out with
    | nil => cases hr
    | cons a rest =>
        cases hr
        exact ⟨rest, rfl⟩
  refine ⟨h.mem_iff.mp List.mem_cons_self, fun s hs hcond => ?_⟩
  have hmem := h.mem_iff.mpr ⟨hs, hcond⟩
  rcases List.mem_cons.mp hmem with heq | hrest
  · exact .inl heq
  · exact .inr (List.rel_of_pairwise_cons h.sorted hrest)

/-- A query whose order compares any two rows has a result. -/
theorem exists_selected (cond : α → Bool) (le : α → α → Prop) [Std.Total le] [IsTrans α le]
    (rows : List α) : ∃ out, Selected cond le rows out := by
  classical
  exact ⟨(rows.filter cond).insertionSort le, List.perm_insertionSort le _,
    List.pairwise_insertionSort le _⟩

end Selected

/-! ## The first rows -/

/-- Without repeated rows, the first `n` rows hold every row of a kind exactly if
none of that kind comes later. -/
theorem take_covers_iff {l : List α} (hnodup : l.Nodup) (n : Nat) {P : α → Prop} :
    (∀ x ∈ l, P x → x ∈ l.take n) ↔ ∀ x ∈ l.drop n, ¬P x := by
  constructor
  · intro hall x hdrop hx
    exact List.disjoint_take_drop hnodup le_rfl (hall x (List.mem_of_mem_drop hdrop) hx) hdrop
  · intro hnone x hx hP
    rw [← List.take_append_drop n l, List.mem_append] at hx
    exact hx.resolve_right fun hdrop => hnone x hdrop hP

/-! ## Pages -/

/-- The rows of a page.  The first page is number one. -/
def pageOf (rows : List α) (size page : Nat) : List α := (rows.drop ((page - 1) * size)).take size

/-- A client that asks for page after page as long as it is told that there is a next one.
`none` is a client that is not done after `fuel` requests. -/
def collect (request : Nat → List α × Bool) : (fuel page : Nat) → Option (List α)
  | 0, _ => none
  | fuel + 1, page =>
      if (request page).2 then (collect request fuel (page + 1)).map ((request page).1 ++ ·)
      else some (request page).1

theorem length_pageOf (rows : List α) (size page : Nat) :
    (pageOf rows size page).length = min size (rows.length - (page - 1) * size) := by
  rw [pageOf, List.length_take, List.length_drop]

theorem page_mul {page : Nat} (hpage : 1 ≤ page) (size : Nat) :
    page * size = (page - 1) * size + size := by
  rw [← Nat.succ_mul, Nat.succ_eq_add_one, Nat.sub_add_cancel hpage]

theorem pageOf_append (rows : List α) (size : Nat) {page : Nat} (hpage : 1 ≤ page) :
    pageOf rows size page ++ rows.drop (page * size) = rows.drop ((page - 1) * size) := by
  rw [page_mul hpage, ← List.drop_drop]
  exact List.take_append_drop size _

/-- Pages of at least one row, of which the full ones have a next one, are all the rows from
the first page on that is asked for. -/
theorem collect_from {request : Nat → List α × Bool} {rows : List α} {size : Nat} (hsize : 1 ≤ size)
    (hrequest : ∀ page, 1 ≤ page → page ≤ rows.length / size + 1 →
      request page = (pageOf rows size page, decide ((pageOf rows size page).length = size)))
    {fuel page : Nat} (hpage : 1 ≤ page) (hfuel : page + fuel = rows.length / size + 1) :
    collect request (fuel + 1) page = some (rows.drop ((page - 1) * size)) := by
  have hend := page_mul hpage size
  induction fuel generalizing page with
  | zero =>
      -- the last page is not full
      have hlast : rows.length < page * size := Nat.lt_mul_of_div_lt (by omega) hsize
      have hshort : ¬ (pageOf rows size page).length = size := by
        rw [length_pageOf]
        omega
      rw [collect, hrequest page hpage (by omega)]
      simp only [hshort, decide_false, Bool.false_eq_true, if_false, Option.some.injEq]
      have hbehind : rows.drop (page * size) = [] := List.drop_eq_nil_of_le hlast.le
      rw [← pageOf_append rows size hpage, hbehind, List.append_nil]
  | succ fuel ih =>
      have hfull : (pageOf rows size page).length = size := by
        have hle : page * size ≤ rows.length := by
          calc page * size ≤ rows.length / size * size := Nat.mul_le_mul_right size (by omega)
            _ ≤ rows.length := Nat.div_mul_le_self _ _
        rw [length_pageOf]
        omega
      have hnext : collect request (fuel + 1) (page + 1) = some (rows.drop ((page + 1 - 1) * size)) :=
        ih (by omega) (by omega) (page_mul (by omega) size)
      rw [collect, hrequest page hpage (by omega), hnext]
      simp only [hfull, decide_true, if_true, Option.map_some, Nat.add_sub_cancel]
      rw [pageOf_append rows size hpage]

/-- From the first page on that is all of them, after one request for each full page and one
more. -/
theorem collect_eq {request : Nat → List α × Bool} {rows : List α} {size : Nat} (hsize : 1 ≤ size)
    (hrequest : ∀ page, 1 ≤ page → page ≤ rows.length / size + 1 →
      request page = (pageOf rows size page, decide ((pageOf rows size page).length = size))) :
    collect request (rows.length / size + 1) 1 = some rows := by
  rw [collect_from hsize hrequest (Nat.le_refl 1) (Nat.add_comm 1 _), Nat.sub_self, Nat.zero_mul,
    List.drop_zero]

/-! ## The last writer -/

/-- A place that every row of a kind writes and no other row touches holds, after a pass over
the rows, what the last of them wrote. -/
theorem foldl_last {σ β : Type*} {step : σ → α → σ} (place : σ → Option β) {writes : α → Bool}
    {value : α → β}
    (hstep : ∀ s a, place (step s a) = if writes a then some (value a) else place s)
    (rows : List α) (s : σ) :
    place (rows.foldl step s) = ((rows.reverse.find? writes).map value).or (place s) := by
  induction rows generalizing s with
  | nil => simp
  | cons a rest ih =>
      rw [List.foldl_cons, ih, hstep, List.reverse_cons, List.find?_append]
      cases rest.reverse.find? writes with
      | some b => simp
      | none => cases hw : writes a <;> simp [hw]

/-! ## Keys that are unique -/

section Keys

variable {κ : Type*} {key : α → κ} {rows : List α}

/-- A row with a new key can be added. -/
theorem nodup_map_concat {row : α} (h : (rows.map key).Nodup) (hnew : ∀ a ∈ rows, key a ≠ key row) :
    ((rows ++ [row]).map key).Nodup := by
  rw [List.map_append, List.map_singleton, ← List.concat_eq_append]
  refine h.concat fun hmem => ?_
  obtain ⟨a, ha, heq⟩ := List.mem_map.mp hmem
  exact hnew a ha heq

/-- An update that keeps the key of a row keeps the list of keys. -/
theorem map_key_update {p : α → Prop} [DecidablePred p] {change : α → α} (h : ∀ a, key (change a) = key a) :
    (rows.map fun a => if p a then change a else a).map key = rows.map key := by
  rw [List.map_map]
  refine List.map_congr_left fun a _ => ?_
  rw [Function.comp_apply, apply_ite key, h, ite_self]

/-- Rows that are deleted take no key from the others. -/
theorem nodup_map_filter (h : (rows.map key).Nodup) (keep : α → Bool) : ((rows.filter keep).map key).Nodup :=
  h.sublist (List.filter_sublist.map key)

/-- An update of the rows of one identity with a value that no other row has keeps the values
unique. -/
theorem nodup_map_update {ι : Type*} [DecidableEq ι] {ident : α → ι} {change : α → α} {i : ι} {k : κ}
    (hident : (rows.map ident).Nodup) (h : (rows.map key).Nodup)
    (hfree : ∀ a ∈ rows, ident a ≠ i → key a ≠ k) (hchange : ∀ a, key (change a) = k) :
    ((rows.map fun a => if ident a = i then change a else a).map key).Nodup := by
  rw [List.map_map]
  refine List.Nodup.map_on ?_ (List.Nodup.of_map ident hident)
  intro a ha b hb heq
  simp only [Function.comp_apply] at heq
  split at heq
  next hai =>
    split at heq
    next hbi => exact List.inj_on_of_nodup_map hident ha hb (hai.trans hbi.symm)
    next hbi => exact absurd ((hchange a).symm.trans heq).symm (hfree b hb hbi)
  next hai =>
    split at heq
    next _ => exact absurd (heq.trans (hchange b)) (hfree a ha hai)
    next _ => exact List.inj_on_of_nodup_map h ha hb heq

/-- `INSERT .. ON CONFLICT (key) DO UPDATE`: the row of a key is changed, or a row with a new
identity is inserted. -/
def upsert {ι : Type*} [DecidableEq κ] [DecidableEq ι] (key : α → κ) (ident : α → ι) (row : α) (change : α → α)
    (rows : List α) : Option (List α) :=
  if rows.any (key · = key row) then some (rows.map fun a => if key a = key row then change a else a)
  else if rows.any (ident · = ident row) then none
  else some (rows ++ [row])

theorem upsert_cases {ι : Type*} [DecidableEq κ] [DecidableEq ι] {ident : α → ι} {row : α} {change : α → α}
    {rows' : List α} (h : upsert key ident row change rows = some rows') :
    ((∃ a ∈ rows, key a = key row) ∧ rows' = rows.map fun a => if key a = key row then change a else a) ∨
      (∀ a ∈ rows, key a ≠ key row ∧ ident a ≠ ident row) ∧ rows' = rows ++ [row] := by
  unfold upsert at h
  split at h
  next hfound =>
    cases h
    exact .inl ⟨by simpa using hfound, rfl⟩
  next hnone =>
    split at h
    next _ => cases h
    next hfresh =>
      cases h
      refine .inr ⟨fun a ha => ⟨?_, ?_⟩, rfl⟩
      · simp only [List.any_eq_true, decide_eq_true_eq, not_exists, not_and] at hnone
        exact hnone a ha
      · simp only [List.any_eq_true, decide_eq_true_eq, not_exists, not_and] at hfresh
        exact hfresh a ha

/-- What an upsert leaves of the rows. -/
structure Upserted {ι : Type*} (key : α → κ) (ident : α → ι) (row : α) (change : α → α) (rows rows' : List α) :
    Prop where
  keys : (rows.map key).Nodup → (rows'.map key).Nodup
  idents : (rows.map ident).Nodup → (rows'.map ident).Nodup
  subset : rows.map ident ⊆ rows'.map ident
  written : ∃ a ∈ rows', key a = key row ∧ (a = row ∨ ∃ b, a = change b)
  kept : ∀ a ∈ rows, ∃ b ∈ rows', ident b = ident a ∧ key b = key a ∧ (b = a ∨ b = change a)
  others : ∀ a ∈ rows, key a ≠ key row → a ∈ rows'
  /-- A row of a known identity was there before. -/
  known : ∀ b ∈ rows', ident b ∈ rows.map ident → ∃ a ∈ rows, ident a = ident b ∧ key a = key b

theorem upserted {ι : Type*} [DecidableEq κ] [DecidableEq ι] {ident : α → ι} {row : α} {change : α → α}
    {rows' : List α} (h : upsert key ident row change rows = some rows') (hkey : ∀ a, key (change a) = key a)
    (hident : ∀ a, ident (change a) = ident a) : Upserted key ident row change rows rows' := by
  rcases upsert_cases h with ⟨⟨a, ha, heq⟩, rfl⟩ | ⟨hnew, rfl⟩
  · have hchanged : ∀ a, ident (if key a = key row then change a else a) = ident a ∧
        key (if key a = key row then change a else a) = key a := by
      intro a
      rw [apply_ite ident, apply_ite key, hident, hkey, ite_self, ite_self]
      exact ⟨rfl, rfl⟩
    refine ⟨?_, ?_, ?_, ?_, fun a ha => ?_, fun a ha hne => List.mem_map.mpr ⟨a, ha, if_neg hne⟩, fun b hb _ => ?_⟩
    · rw [map_key_update hkey]
      exact id
    · rw [map_key_update hident]
      exact id
    · rw [map_key_update hident]
      exact List.Subset.refl _
    · exact ⟨_, List.mem_map_of_mem ha, (hchanged a).2.trans heq, .inr ⟨a, if_pos heq⟩⟩
    · exact ⟨_, List.mem_map_of_mem ha, (hchanged a).1, (hchanged a).2, (ite_eq_or_eq ..).symm⟩
    · obtain ⟨a, ha, rfl⟩ := List.mem_map.mp hb
      exact ⟨a, ha, (hchanged a).1.symm, (hchanged a).2.symm⟩
  · refine ⟨fun h => nodup_map_concat h fun a ha => (hnew a ha).1, fun h => nodup_map_concat h fun a ha => (hnew a ha).2,
      List.map_subset _ (List.subset_append_left _ _), ⟨row, List.mem_concat_self, rfl, .inl rfl⟩,
      fun a ha => ⟨a, List.mem_append_left _ ha, rfl, rfl, .inl rfl⟩, fun a ha _ => List.mem_append_left _ ha,
      fun b hb hknown => ?_⟩
    rcases List.mem_append.mp hb with hb | hb
    · exact ⟨b, hb, rfl, rfl⟩
    · obtain rfl := List.mem_singleton.mp hb
      obtain ⟨a, ha, heq⟩ := List.mem_map.mp hknown
      exact absurd heq (hnew a ha).2

end Keys

/-! ## Rows by their key -/

section Index

variable {κ : Type*} [DecidableEq κ] {key : α → κ} {rows : List α}

/-- The map from keys to rows, where a later row replaces an earlier one. -/
def index (key : α → κ) (rows : List α) : κ → Option α :=
  rows.foldl (fun m r => Function.update m (key r) (some r)) fun _ => none

/-- The map holds the last row of each key. -/
theorem index_eq_last (key : α → κ) (rows : List α) (k : κ) :
    index key rows k = rows.reverse.find? (key · = k) := by
  have hstep : ∀ (m : κ → Option α) (a : α),
      Function.update m (key a) (some a) k = if decide (key a = k) then some a else m k := by
    intro m a
    by_cases hk : key a = k
    · simp [← hk]
    · simp [hk, Function.update_of_ne (Ne.symm hk)]
  have hlast := foldl_last (fun m : κ → Option α => m k) hstep rows fun _ => none
  simpa [index] using hlast

/-- A search by the key finds each row, when the keys are distinct. -/
theorem find_key_eq_some (hnodup : (rows.map key).Nodup) {k : κ} {r : α} :
    rows.find? (key · = k) = some r ↔ r ∈ rows ∧ key r = k := by
  constructor
  · intro h
    exact ⟨List.mem_of_find?_eq_some h, by simpa using List.find?_some h⟩
  · rintro ⟨hmem, rfl⟩
    cases hfind : rows.find? (key · = key r) with
    | none => simpa using List.find?_eq_none.mp hfind r hmem
    | some s =>
        have hs : key s = key r := by simpa using List.find?_some hfind
        exact congrArg some
          (List.inj_on_of_nodup_map hnodup (List.mem_of_find?_eq_some hfind) hmem hs)

/-- So does the map. -/
theorem index_eq_some (hnodup : (rows.map key).Nodup) {k : κ} {r : α} :
    index key rows k = some r ↔ r ∈ rows ∧ key r = k := by
  have hrev : (rows.reverse.map key).Nodup := by rwa [List.map_reverse, List.nodup_reverse]
  rw [index_eq_last, find_key_eq_some hrev, List.mem_reverse]

/-- Both find the same rows, whatever order the map was filled in. -/
theorem index_eq_find {listed : List α} (hnodup : (rows.map key).Nodup) (hperm : listed.Perm rows)
    (k : κ) : index key listed k = rows.find? (key · = k) := by
  have hlisted : (listed.map key).Nodup := (hperm.map key).nodup_iff.mpr hnodup
  ext r
  rw [index_eq_some hlisted, find_key_eq_some hnodup, hperm.mem_iff]

/-- Of rows with distinct keys one has the key of a row. -/
theorem filter_key_eq_singleton (hnodup : (rows.map key).Nodup) {r : α} (hr : r ∈ rows) :
    rows.filter (key · = key r) = [r] := by
  induction rows with
  | nil => cases hr
  | cons a rest ih =>
      obtain ⟨hfresh, hrest⟩ := List.nodup_cons.mp (List.map_cons ▸ hnodup)
      rcases List.mem_cons.mp hr with rfl | hr
      · have hnone : rest.filter (key · = key r) = [] := by
          rw [List.filter_eq_nil_iff]
          intro x hx heq
          exact hfresh (List.mem_map.mpr ⟨x, hx, of_decide_eq_true heq⟩)
        rw [List.filter_cons_of_pos (by simp), hnone]
      · have hne : key a ≠ key r := fun heq => hfresh (heq ▸ List.mem_map_of_mem hr)
        rw [List.filter_cons_of_neg (by simpa using hne), ih hrest hr]

/-! ## One row for each key -/

/-- The first row of each key. -/
def distinctOn (key : α → κ) : List α → List α
  | [] => []
  | a :: rest => a :: (distinctOn key rest).filter (key · ≠ key a)

theorem mem_distinctOn_cons {a x : α} :
    x ∈ distinctOn key (a :: rows) ↔ x = a ∨ (x ∈ distinctOn key rows ∧ key x ≠ key a) := by
  simp [distinctOn]

theorem distinctOn_subset {x : α} (hx : x ∈ distinctOn key rows) : x ∈ rows := by
  induction rows with
  | nil => exact hx
  | cons a rest ih =>
      rcases mem_distinctOn_cons.mp hx with rfl | ⟨hx, -⟩
      · exact List.mem_cons_self
      · exact .tail a (ih hx)

theorem distinctOn_nodup (key : α → κ) (rows : List α) : ((distinctOn key rows).map key).Nodup := by
  induction rows with
  | nil => exact List.nodup_nil
  | cons a rest ih =>
      rw [distinctOn, List.map_cons, List.nodup_cons]
      constructor
      · intro hmem
        obtain ⟨x, hx, heq⟩ := List.mem_map.mp hmem
        simp [heq] at hx
      · exact ih.sublist (List.filter_sublist.map key)

/-- A row of every key is kept. -/
theorem mem_map_distinctOn {k : κ} : k ∈ (distinctOn key rows).map key ↔ k ∈ rows.map key := by
  induction rows with
  | nil => simp [distinctOn]
  | cons a rest ih =>
      simp only [List.mem_map, mem_distinctOn_cons] at ih ⊢
      constructor
      · rintro ⟨x, rfl | ⟨hx, -⟩, rfl⟩
        · exact ⟨x, List.mem_cons_self, rfl⟩
        · obtain ⟨y, hy, heq⟩ := ih.mp ⟨x, hx, rfl⟩
          exact ⟨y, .tail a hy, heq⟩
      · rintro ⟨x, hx, rfl⟩
        by_cases hkey : key x = key a
        · exact ⟨a, .inl rfl, hkey.symm⟩
        · have hmem : x ∈ rest := (List.mem_cons.mp hx).resolve_left fun heq => hkey (heq ▸ rfl)
          obtain ⟨y, hy, heq⟩ := ih.mpr ⟨x, hmem, rfl⟩
          exact ⟨y, .inr ⟨hy, heq ▸ hkey⟩, heq⟩

/-- In sorted rows the row of a key that is kept is the least one. -/
theorem mem_distinctOn {le : α → α → Prop} (hsorted : rows.Pairwise le)
    (hanti : ∀ x ∈ rows, ∀ y ∈ rows, key x = key y → le x y → le y x → x = y) {x : α} :
    x ∈ distinctOn key rows ↔ x ∈ rows ∧ ∀ y ∈ rows, key y = key x → y = x ∨ le x y := by
  induction rows with
  | nil => simp [distinctOn]
  | cons a rest ih =>
      obtain ⟨hfirst, hrest⟩ := List.pairwise_cons.mp hsorted
      have ih := ih hrest fun x hx y hy => hanti x (.tail a hx) y (.tail a hy)
      rw [mem_distinctOn_cons, ih]
      constructor
      · rintro (rfl | ⟨⟨hmem, hleast⟩, hkey⟩)
        · refine ⟨List.mem_cons_self, fun y hy _ => ?_⟩
          exact (List.mem_cons.mp hy).imp id (hfirst y)
        · refine ⟨.tail a hmem, fun y hy heq => ?_⟩
          rcases List.mem_cons.mp hy with rfl | hy
          · exact absurd heq.symm hkey
          · exact hleast y hy heq
      · rintro ⟨hmem, hleast⟩
        rcases List.mem_cons.mp hmem with rfl | hmem
        · exact .inl rfl
        by_cases hkey : key x = key a
        · -- the first row has the key too, and nothing stands before it
          refine .inl ?_
          rcases hleast a List.mem_cons_self hkey.symm with heq | hle
          · exact heq.symm
          · exact hanti x (.tail a hmem) a List.mem_cons_self hkey hle (hfirst x hmem)
        · exact .inr ⟨⟨hmem, fun y hy => hleast y (.tail a hy)⟩, hkey⟩

end Index

/-! ## Stable sorting -/

/-- The list sorted by a key, the largest first, with equal keys in their old
order. -/
def sortDesc (key : α → Nat) (l : List α) : List α := l.insertionSort fun a b => key b ≤ key a

theorem mem_sortDesc {key : α → Nat} {l : List α} {a : α} : a ∈ sortDesc key l ↔ a ∈ l :=
  List.mem_insertionSort _

theorem sortDesc_eq_nil {key : α → Nat} {l : List α} (h : sortDesc key l = []) : l = [] := by
  have hlen : (sortDesc key l).length = l.length := List.length_insertionSort _ _
  rw [h] at hlen
  exact List.length_eq_zero_iff.mp hlen.symm

/-- The first element of the sorted list is the first with the largest key. -/
theorem sortDesc_head {key : α → Nat} {l : List α} {r : α} (h : (sortDesc key l).head? = some r) :
    (∀ s ∈ l, key s ≤ key r) ∧ l.find? (fun s => key s = key r) = some r := by
  induction l generalizing r with
  | nil => cases h
  | cons a l ih =>
      rw [sortDesc, List.insertionSort_cons] at h
      change ((sortDesc key l).orderedInsert _ a).head? = some r at h
      cases hl : sortDesc key l with
      | nil =>
          -- nothing stands behind the first element
          obtain rfl := sortDesc_eq_nil hl
          rw [hl] at h
          cases h
          simp
      | cons b rest =>
          obtain ⟨hmax, hfind⟩ := ih (r := b) (by rw [hl]; rfl)
          rw [hl, List.orderedInsert_cons] at h
          split at h
          next hle =>
            cases h
            refine ⟨?_, by simp⟩
            intro s hs
            rcases List.mem_cons.mp hs with rfl | hmem
            · exact le_rfl
            · exact (hmax s hmem).trans hle
          next hlt =>
            cases h
            refine ⟨?_, ?_⟩
            · intro s hs
              rcases List.mem_cons.mp hs with rfl | hmem
              · omega
              · exact hmax s hmem
            · rw [List.find?_cons_of_neg]
              · exact hfind
              · simp only [decide_eq_true_eq]
                omega

end Rows
