import DDAG.Connectors.Bind
import DDAG.Lib.Json
import DDAG.Lib.Strings

/-!
# Metadata backups

`redactBackupValue` and `buildMetadataBackup` of `internal/adminsvc/selfmanagement.go`: the
tables are exported as JSON in which the values of sensitive keys are replaced.
`hasSensitiveConfigKey` of `internal/adminsvc/backup_destinations.go` looks for the same keys
in the configuration of a destination, to refuse it.

An entry is sensitive if its key is, at whatever depth it stands.  A path is clean if it goes
through no sensitive entry.

* `redaction_exact`: what redaction replaces, what it keeps, and when there is anything to
  replace.
* `redact_eq_of_sameOutside`: values that differ in sensitive entries only have the same
  redaction.  So the export tells everything of the tables but these (`export_eq_iff`).
-/

namespace DDAG.AdminSvc

open Json

variable {ν : Type*}

def sensitiveBackupKey (k : Text) : Bool :=
  ["secret", "password", "token", "private_key", "dsn"].any fun s =>
    Strings.contains (Strings.toLower k) s.toList

/-- A key is sensitive if one of five words stands in it, in whatever case. -/
theorem sensitiveBackupKey_iff (k : Text) : sensitiveBackupKey k = true ↔
    ∃ word ∈ ["secret", "password", "token", "private_key", "dsn"], word.toList <:+: Strings.toLower k := by
  simp only [sensitiveBackupKey, List.any_eq_true, Strings.contains_iff]

example : sensitiveBackupKey "Client_Secret".toList = true ∧ sensitiveBackupKey "client_id".toList = false := by
  decide +kernel

def redacted : Json Text ν := .text "[REDACTED]".toList

def redactBackupValue : Json Text ν → Json Text ν
  | .object keys values =>
      .object keys fun k => if sensitiveBackupKey k then redacted else redactBackupValue (values k)
  | .array length items => .array length fun i => redactBackupValue (items i)
  | v => v

def hasSensitiveConfigKey : Json Text ν → Bool
  | .object keys values =>
      decide (∃ k : {k // k ∈ keys}, sensitiveBackupKey k = true ∨ hasSensitiveConfigKey (values k) = true)
  | .array _ items => decide (∃ i, hasSensitiveConfigKey (items i) = true)
  | _ => false

/-! ## What redaction is to do -/

/-- The value has a sensitive entry, with the value `x`. -/
def SensitiveEntry (v x : Json Text ν) : Prop :=
  ∃ p k, sensitiveBackupKey k = true ∧ v.at? (p ++ [.key k]) = some x

/-- The path goes through no sensitive entry. -/
def Clean (p : List (Step Text)) : Prop := ∀ k, .key k ∈ p → sensitiveBackupKey k = false

/-- The same keys, scalars and array lengths, outside of the sensitive entries. -/
def SameOutside (v w : Json Text ν) : Prop :=
  ∀ p, Clean p → (v.at? p).map node = (w.at? p).map node

/-! ## One step below -/

theorem redact_object (keys : Finset Text) (values : {k // k ∈ keys} → Json Text ν) :
    redactBackupValue (.object keys values) =
      .object keys fun k => if sensitiveBackupKey k then redacted else redactBackupValue (values k) := rfl

theorem redact_array (length : Nat) (items : Fin length → Json Text ν) :
    redactBackupValue (.array length items) = .array length fun i => redactBackupValue (items i) := rfl

/-- What redaction makes of the value below a step. -/
def redactBelow (s : Step Text) (c : Json Text ν) : Json Text ν :=
  match s with
  | .key k => if sensitiveBackupKey k then redacted else redactBackupValue c
  | .index _ => redactBackupValue c

theorem redact_child? (v : Json Text ν) (s : Step Text) :
    (redactBackupValue v).child? s = (v.child? s).map (redactBelow s) := by
  cases v with
  | array length items =>
      cases s with
      | key k => rfl
      | index i =>
          simp only [redactBackupValue, child?]
          split <;> rfl
  | object keys values =>
      cases s with
      | key k =>
          simp only [redactBackupValue, child?]
          split <;> rfl
      | index i => rfl
  | _ => cases s <;> rfl

theorem node_redact (v : Json Text ν) : (redactBackupValue v).node = v.node := by
  cases v <;> rfl

theorem redactBelow_clean {s : Step Text} {p : List (Step Text)} (h : Clean (s :: p)) (c : Json Text ν) :
    redactBelow s c = redactBackupValue c := by
  cases s with
  | index i => rfl
  | key k =>
      have hk : sensitiveBackupKey k = false := h k List.mem_cons_self
      simp [redactBelow, hk]

theorem Clean.tail {s : Step Text} {p : List (Step Text)} (h : Clean (s :: p)) : Clean p :=
  fun k hk => h k (List.mem_cons_of_mem s hk)

/-- Nothing stands below what replaces a value. -/
theorem redacted_at?_append (p : List (Step Text)) (s : Step Text) :
    (redacted : Json Text ν).at? (p ++ [s]) = none := by
  cases p with
  | nil => simp [redacted]
  | cons t p => simp [redacted]

/-! ## Redacted values -/

/-- Every sensitive entry that is left is redacted. -/
theorem sensitiveEntry_redact {v x : Json Text ν} (h : SensitiveEntry (redactBackupValue v) x) :
    x = redacted := by
  obtain ⟨p, k, hk, hat⟩ := h
  induction p generalizing v with
  | nil =>
      rw [List.nil_append, at?_cons, redact_child?, Option.bind_map] at hat
      obtain ⟨c, -, hc⟩ := Option.bind_eq_some_iff.mp hat
      simp only [Function.comp_apply, redactBelow, hk, if_true, at?_nil, Option.some.injEq] at hc
      exact hc.symm
  | cons s p ih =>
      rw [List.cons_append, at?_cons, redact_child?, Option.bind_map] at hat
      obtain ⟨c, -, hc⟩ := Option.bind_eq_some_iff.mp hat
      simp only [Function.comp_apply] at hc
      cases s with
      | index i => exact ih hc
      | key l =>
          simp only [redactBelow] at hc
          split at hc
          next _ =>
            rw [redacted_at?_append] at hc
            cases hc
          next _ => exact ih hc

/-- Redaction changes nothing outside of the sensitive entries. -/
theorem sameOutside_redact (v : Json Text ν) : SameOutside (redactBackupValue v) v := by
  intro p hp
  induction p generalizing v with
  | nil => simp [node_redact]
  | cons s p ih =>
      rw [at?_cons, at?_cons, redact_child?]
      cases hc : v.child? s with
      | none => rfl
      | some c =>
          simp only [Option.map_some, Option.bind_some, redactBelow_clean hp]
          exact ih c hp.tail

theorem redact_redact (v : Json Text ν) :
    redactBackupValue (redactBackupValue v) = redactBackupValue v := by
  induction v with
  | array length items ih => simp [redact_array, ih]
  | object keys values ih =>
      simp only [redact_object, Json.object.injEq, heq_eq_eq, true_and]
      funext k
      split
      next _ => rfl
      next _ => exact ih k
  | _ => rfl

/-! ## Sensitive keys -/

/-- An entry of a value is one of the whole. -/
theorem SensitiveEntry.below {v c x : Json Text ν} {s : Step Text} (hc : v.child? s = some c)
    (h : SensitiveEntry c x) : SensitiveEntry v x := by
  obtain ⟨p, k, hk, hat⟩ := h
  exact ⟨s :: p, k, hk, by simpa [hc] using hat⟩

theorem sensitiveEntry_of_has {v : Json Text ν} (h : hasSensitiveConfigKey v = true) :
    ∃ x, SensitiveEntry v x := by
  induction v with
  | array length items ih =>
      obtain ⟨i, hi⟩ := of_decide_eq_true h
      obtain ⟨x, hx⟩ := ih i hi
      exact ⟨x, hx.below (child?_index items i)⟩
  | object keys values ih =>
      obtain ⟨⟨k, hmem⟩, hk | hk⟩ := of_decide_eq_true h
      · exact ⟨values ⟨k, hmem⟩, [], k, hk, by simp [child?_key values hmem]⟩
      · obtain ⟨x, hx⟩ := ih ⟨k, hmem⟩ hk
        exact ⟨x, hx.below (child?_key values hmem)⟩
  | _ => cases h

/-- A value with a sensitive key directly below, or one that has such a value below. -/
theorem has_of_child? {v c : Json Text ν} {s : Step Text} (hc : v.child? s = some c)
    (h : (∃ k, s = .key k ∧ sensitiveBackupKey k = true) ∨ hasSensitiveConfigKey c = true) :
    hasSensitiveConfigKey v = true := by
  cases v with
  | array length items =>
      cases s with
      | key k => cases hc
      | index i =>
          simp only [child?] at hc
          split at hc
          next hi =>
            cases hc
            rcases h with ⟨k, hk, -⟩ | h
            · cases hk
            · exact decide_eq_true ⟨⟨i, hi⟩, h⟩
          next _ => cases hc
  | object keys values =>
      cases s with
      | index i => cases hc
      | key k =>
          simp only [child?] at hc
          split at hc
          next hmem =>
            cases hc
            refine decide_eq_true ⟨⟨k, hmem⟩, ?_⟩
            rcases h with ⟨l, hl, hsensitive⟩ | h
            · cases hl
              exact .inl hsensitive
            · exact .inr h
          next _ => cases hc
  | _ => cases s <;> cases hc

theorem has_of_sensitiveEntry {v x : Json Text ν} (h : SensitiveEntry v x) :
    hasSensitiveConfigKey v = true := by
  obtain ⟨p, k, hk, hat⟩ := h
  induction p generalizing v with
  | nil =>
      obtain ⟨c, hc, -⟩ := Option.bind_eq_some_iff.mp hat
      exact has_of_child? hc (.inl ⟨k, rfl, hk⟩)
  | cons s p ih =>
      obtain ⟨c, hc, hrest⟩ := Option.bind_eq_some_iff.mp hat
      exact has_of_child? hc (.inr (ih hrest))

/-- A value without sensitive keys is its own redaction. -/
theorem redact_eq_self {v : Json Text ν} (h : hasSensitiveConfigKey v = false) :
    redactBackupValue v = v := by
  induction v with
  | array length items ih =>
      have hno := not_exists.mp (of_decide_eq_false h)
      simp only [redact_array, Json.array.injEq, heq_eq_eq, true_and]
      funext i
      exact ih i (Bool.of_not_eq_true (hno i))
  | object keys values ih =>
      have hno := not_exists.mp (of_decide_eq_false h)
      simp only [redact_object, Json.object.injEq, heq_eq_eq, true_and]
      funext k
      obtain ⟨hkey, hvalue⟩ := not_or.mp (hno k)
      rw [if_neg hkey]
      exact ih k (Bool.of_not_eq_true hvalue)
  | _ => rfl

/-- Redaction replaces the value of every sensitive entry and nothing else, a second time it
changes nothing, and `hasSensitiveConfigKey` finds the values that it replaces, or has
replaced. -/
theorem redaction_exact (v : Json Text ν) :
    (∀ x, SensitiveEntry (redactBackupValue v) x → x = redacted) ∧
      SameOutside (redactBackupValue v) v ∧
      redactBackupValue (redactBackupValue v) = redactBackupValue v ∧
      (hasSensitiveConfigKey v = true ↔ ∃ x, SensitiveEntry v x) ∧
      (hasSensitiveConfigKey v = true ↔ redactBackupValue v ≠ v ∨ SensitiveEntry v redacted) := by
  refine ⟨fun x => sensitiveEntry_redact, sameOutside_redact v, redact_redact v,
    ⟨sensitiveEntry_of_has, fun h => h.elim fun _ => has_of_sensitiveEntry⟩, fun h => ?_, fun h => ?_⟩
  · by_cases hsame : redactBackupValue v = v
    · obtain ⟨x, hx⟩ := sensitiveEntry_of_has h
      -- what redaction leaves alone was redacted before
      have hredacted : x = redacted := sensitiveEntry_redact (hsame.symm ▸ hx)
      exact .inr (hredacted ▸ hx)
    · exact .inl hsame
  · rcases h with hchanged | hentry
    · cases hhas : hasSensitiveConfigKey v with
      | true => rfl
      | false => exact absurd (redact_eq_self hhas) hchanged
    · exact has_of_sensitiveEntry hentry

/-! ## What the export tells -/

theorem SameOutside.node_eq {v w : Json Text ν} (h : SameOutside v w) : v.node = w.node := by
  simpa using h [] (by simp [Clean])

theorem SameOutside.below {v w c d : Json Text ν} {s : Step Text} (h : SameOutside v w)
    (hs : Clean [s]) (hc : v.child? s = some c) (hd : w.child? s = some d) : SameOutside c d := by
  intro p hp
  have hclean : Clean (s :: p) := by
    intro k hk
    rcases List.mem_cons.mp hk with rfl | hk
    · exact hs k List.mem_cons_self
    · exact hp k hk
  simpa [hc, hd] using h (s :: p) hclean

/-- Values that differ in sensitive entries only have the same redaction. -/
theorem redact_eq_of_sameOutside {v w : Json Text ν} (h : SameOutside v w) :
    redactBackupValue v = redactBackupValue w := by
  have hnode := h.node_eq
  induction v generalizing w with
  | array length items ih =>
      cases w with
      | array m others =>
          cases hnode
          simp only [redact_array, Json.array.injEq, heq_eq_eq, true_and]
          funext i
          have hbelow : SameOutside (items i) (others i) :=
            h.below (by simp [Clean]) (child?_index items i) (child?_index others i)
          exact ih i hbelow hbelow.node_eq
      | _ => cases hnode
  | object keys values ih =>
      cases w with
      | object others values' =>
          cases hnode
          simp only [redact_object, Json.object.injEq, heq_eq_eq, true_and]
          funext k
          split
          next _ => rfl
          next hk =>
            have hbelow : SameOutside (values k) (values' k) :=
              h.below (by simpa [Clean] using hk) (child?_key values k.2) (child?_key values' k.2)
            exact ih k hbelow hbelow.node_eq
      | _ => cases hnode
  | _ =>
      cases w <;> cases hnode
      all_goals rfl

def backupTables : List Text :=
  ["settings".toList, "maintenance_jobs".toList, "service_registry".toList, "roles".toList,
    "permissions".toList, "scopes".toList, "api_definitions".toList, "database_connections".toList,
    "clients".toList]

def backupFields : List Text := ["version".toList, "generated_at".toList, "tables".toList]

/-- The export, from what `ExportTableJSON` returns for each table. -/
def buildMetadataBackup (exportTableJSON : Text → Option (List (Json Text ν))) (generatedAt : Text) :
    Json Text ν :=
  let rows := fun t =>
    match exportTableJSON t with
    | none => .array 0 Fin.elim0
    | some v => redactBackupValue (.array v.length v.get)
  .object backupFields.toFinset fun k =>
    if k.1 = "version".toList then .text "v4".toList
    else if k.1 = "generated_at".toList then .text generatedAt
    else .object backupTables.toFinset fun t => rows t

/-- The rows of a table, none if the table could not be read. -/
def exportedTable (exportTableJSON : Text → Option (List (Json Text ν))) (t : Text) : Json Text ν :=
  .array ((exportTableJSON t).getD []).length ((exportTableJSON t).getD []).get

theorem buildMetadataBackup_eq (exportTableJSON : Text → Option (List (Json Text ν))) (generatedAt : Text) :
    buildMetadataBackup exportTableJSON generatedAt = .object backupFields.toFinset fun k =>
      if k.1 = "version".toList then .text "v4".toList
      else if k.1 = "generated_at".toList then .text generatedAt
      else .object backupTables.toFinset fun t => redactBackupValue (exportedTable exportTableJSON t) := by
  have hrows : ∀ t, (match exportTableJSON t with
      | none => .array 0 Fin.elim0
      | some v => redactBackupValue (.array v.length v.get)) = redactBackupValue (exportedTable exportTableJSON t) := by
    intro t
    unfold exportedTable
    cases exportTableJSON t with
    | none => exact congrArg (Json.array 0) (funext fun i => i.elim0)
    | some v => rfl
  simp only [buildMetadataBackup, hrows]

/-- Two exports made at one time are the same exactly if their tables differ in sensitive entries only. -/
theorem export_eq_iff (exportTableJSON others : Text → Option (List (Json Text ν))) (generatedAt : Text) :
    buildMetadataBackup exportTableJSON generatedAt = buildMetadataBackup others generatedAt ↔
      ∀ t ∈ backupTables, SameOutside (exportedTable exportTableJSON t) (exportedTable others t) := by
  rw [buildMetadataBackup_eq, buildMetadataBackup_eq]
  constructor
  · intro h t ht
    simp only [Json.object.injEq, heq_eq_eq, true_and] at h
    obtain ⟨k, hversion, hgenerated⟩ : ∃ k : {k // k ∈ backupFields.toFinset},
        k.1 ≠ "version".toList ∧ k.1 ≠ "generated_at".toList := ⟨⟨"tables".toList, by decide⟩, by decide, by decide⟩
    have htables := congrFun h k
    simp only [hversion, hgenerated, if_false, Json.object.injEq, heq_eq_eq, true_and] at htables
    have htable := congrFun htables ⟨t, List.mem_toFinset.mpr ht⟩
    intro p hp
    rw [← sameOutside_redact _ p hp, htable, sameOutside_redact _ p hp]
  · intro h
    simp only [Json.object.injEq, heq_eq_eq, true_and]
    funext k
    congr 3
    funext t
    exact redact_eq_of_sameOutside (h t (List.mem_toFinset.mp t.2))

end DDAG.AdminSvc
