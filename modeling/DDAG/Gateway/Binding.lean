import DDAG.Gateway.Validate
import DDAG.Connectors.Trimming
import DDAG.Lib.Fallible

/-!
# The parameters a published API binds

Publishing checks the parameters that `ExtractParamNamesDialect` finds in the
dialect of the API.  The connectors then call `Bind`, which runs the binder with
no dialect.  So the two read the same template with `publishForms` and with
`plainForms`.

`Agrees` is what publishing relies on: `Bind` substitutes the extracted names,
fails exactly when one of them has no value, and a published API whose declared
parameters are all resolved binds.  `bind_agrees` says that this holds when
every region that only the publish side reads is *crossed* by the binder: read
to its very end, with no name that was not met before.  It also says when it
holds exactly.
-/

namespace DDAG.Gateway

open Models Machine
open Connectors

/-! ## First occurrences -/

theorem mem_foldl_addName {x : Text} {names order : List Text} :
    x ∈ names.foldl addName order ↔ x ∈ order ∨ x ∈ names := by
  induction names generalizing order with
  | nil => simp
  | cons name names ih =>
      rw [List.foldl_cons, ih, addName]
      split
      next hmem =>
        constructor
        · exact Or.imp_right (List.mem_cons_of_mem _)
        · rintro (h | h)
          · exact .inl h
          · rcases List.mem_cons.mp h with rfl | h
            · exact .inl hmem
            · exact .inr h
      next _ => simp [or_assoc]

theorem mem_firstOccurrences {x : Text} {names : List Text} :
    x ∈ firstOccurrences names ↔ x ∈ names := by
  simp [firstOccurrences, mem_foldl_addName]

theorem foldl_addName_of_subset {names order : List Text} (h : ∀ x ∈ names, x ∈ order) :
    names.foldl addName order = order := by
  induction names with
  | nil => rfl
  | cons name names ih =>
      rw [List.foldl_cons, addName, if_pos (h name List.mem_cons_self)]
      exact ih fun x hx => h x (List.mem_cons_of_mem _ hx)

/-! ## What publishing relies on -/

/-- The table that gives each name with its value, to see which names were
substituted. -/
def tagged {α : Type} (params : Table α) : Table (Text × α) :=
  fun name => (params name).map (Prod.mk name)

def Published (compileError : Text → Option Text) (walk : List Text → List Text)
    (api : APIDefinition) (ps : List APIParameter) : Prop :=
  (validateForPublish compileError walk api ps).run = some (.ok ())

/-- `Bind` and `ExtractParamNamesDialect` agree on the template. -/
structure Agrees (d : Dialect) (q : Text) : Prop where
  /-- The substituted names are the extracted ones. -/
  substituted : ∀ {names : List Text}, extractParamNamesDialect q d = some names →
    ∀ {α : Type} {params : Table α} {sql : Text} {args : List (Text × α)},
      bind q (tagged params) (placeholderForDialect d) = some (.ok (sql, args)) →
      firstOccurrences (args.map Prod.fst) = names
  /-- A missing parameter is reported exactly when an extracted name has no value. -/
  missing : ∀ {names : List Text}, extractParamNamesDialect q d = some names →
    ∀ {α : Type} (params : Table α),
      (∃ x, bind q params (placeholderForDialect d) = some (.error (missingValue x))) ↔
        ∃ x ∈ names, params x = none
  /-- A published API whose declared parameters have values binds. -/
  published : ∀ {names : List Text}, extractParamNamesDialect q d = some names →
    ∀ {compileError : Text → Option Text} {walk : List Text → List Text} {api : APIDefinition}
      {ps : List APIParameter}, Published compileError walk api ps →
      queryBuilderFromAPI api = .ok none → api.queryTemplate = q → api.dialect = d →
      ∀ {α : Type} {params : Table α}, (∀ p ∈ ps, (params p.name).isSome) →
        ∃ sql args, bind q params (placeholderForDialect d) = some (.ok (sql, args))

/-- Where the publish side opens a region of the dialect, the binder reads on to
the end of the region and meets no new name. -/
def Crossed (d : Dialect) (q : Text) : Prop :=
  ∀ ts s after, LexesTo (lexeme (publishForms d) true) q ts s → publishForms d s = .region after →
    s ≠ [] → ∃ us, LexesTo (lexeme plainForms true) s us after ∧
      ∀ x ∈ paramNames us, x ∈ paramNames ts

/-- The two readings of the template name the same parameters, in the same order
of first occurrence. -/
def SameNames (d : Dialect) (q : Text) : Prop :=
  ∀ ts us, Lexes (lexeme (publishForms d) true) q ts → Lexes (lexeme plainForms true) q us →
    firstOccurrences (paramNames us) = firstOccurrences (paramNames ts)

/-! ## Crossed templates -/

theorem lexeme_of_forms_no {forms : Forms} {binds : Bool} {c : Char} {rest : Text}
    (h : forms (c :: rest) = .no) :
    lexeme forms binds (c :: rest) = commonLexeme binds c rest := by
  simp only [lexeme, h]

/-- Reading on from a place the publish side came to, the binder meets the same
names.  The induction is on what the publish side has left to read; `order`
holds the names met so far. -/
theorem Crossed.lexes_plain {d : Dialect} {q : Text} (hx : Crossed d q) {ts us : List Lexeme}
    {s : Text} {order : List Text} (hts : LexesTo (lexeme (publishForms d) true) q ts s)
    (hus : Lexes (lexeme (publishForms d) true) s us) (hmet : ∀ x ∈ paramNames ts, x ∈ order) :
    ∃ vs, Lexes (lexeme plainForms true) s vs ∧
      (paramNames vs).foldl addName order = (paramNames us).foldl addName order := by
  unfold Lexes at hus
  generalize hr : ([] : Text) = r at hus
  induction hus generalizing ts order with
  | done =>
      subst hr
      exact ⟨[], .done, rfl⟩
  | @read s s' r t us hl hrest ih =>
      have hnext := hts.trans (.single hl)
      cases s with
      | nil => cases hl
      | cons c rest =>
          cases ho : publishForms d (c :: rest) with
          | dangling =>
              rw [lexeme_eq_none_iff.mpr ho] at hl
              cases hl
          | region after =>
              obtain ⟨vs₁, hvs₁, hold⟩ := hx ts _ after hts ho (List.cons_ne_nil c rest)
              simp only [lexeme, ho] at hl
              cases hl
              have hsame : ∀ text, paramNames (ts ++ [.region text]) = paramNames ts := by
                intro text
                rw [paramNames_append]
                exact List.append_nil _
              obtain ⟨vs, hvs, hfold⟩ := ih hnext (fun x hmem => hmet x (hsame _ ▸ hmem)) hr
              refine ⟨vs₁ ++ vs, hvs₁.trans hvs, ?_⟩
              rw [paramNames_append, List.foldl_append,
                foldl_addName_of_subset fun x hmem => hmet x (hold x hmem), hfold]
              rfl
          | no =>
              rw [lexeme_of_forms_no ho] at hl
              have hplain : lexeme plainForms true (c :: rest) = some (t, s') := hl
              have hmet' : ∀ x ∈ paramNames (ts ++ [t]),
                  x ∈ t.name?.toList.foldl addName order := by
                intro x hmem
                rw [paramNames_append, List.mem_append] at hmem
                rw [mem_foldl_addName]
                refine hmem.imp (hmet x) fun h => ?_
                rw [paramNames_cons, List.mem_append] at h
                exact h.resolve_right List.not_mem_nil
              obtain ⟨vs, hvs, hfold⟩ := ih hnext hmet' hr
              refine ⟨t :: vs, .read hplain hvs, ?_⟩
              rw [paramNames_cons, paramNames_cons, List.foldl_append, List.foldl_append, hfold]

theorem Crossed.sameNames {d : Dialect} {q : Text} (hx : Crossed d q) : SameNames d q := by
  intro ts us hts hus
  obtain ⟨vs, hvs, hfold⟩ := hx.lexes_plain .done hts (by simp [paramNames])
  rw [hus.unique (lexeme_consuming plainForms_proper true) hvs]
  exact hfold

/-! ## The binder's result in terms of names -/

theorem tagged_isNone {α : Type} (params : Table α) (name : Text) :
    (tagged params name).isNone = (params name).isNone := by
  simp [tagged]

theorem firstMissing_tagged {α : Type} (params : Table α) (ts : List Lexeme) :
    firstMissing (tagged params) ts = firstMissing params ts := by
  simp [firstMissing, tagged_isNone]

/-- The names of tagged arguments are the names of the lexemes. -/
theorem filterMap_tagged {α : Type} {params : Table α} {names : List Text}
    (h : ∀ x ∈ names, params x ≠ none) : (names.filterMap (tagged params)).map Prod.fst = names := by
  induction names with
  | nil => rfl
  | cons x names ih =>
      obtain ⟨v, hv⟩ := Option.ne_none_iff_exists'.mp (h x List.mem_cons_self)
      have htag : tagged params x = some (x, v) := by simp [tagged, hv]
      rw [List.filterMap_cons_some htag, List.map_cons,
        ih fun y hy => h y (List.mem_cons_of_mem _ hy)]

section Reading

variable {α : Type} {params : Table α} {ph : Placeholder} {q : Text} {us : List Lexeme}

/-- `Bind` reports a missing parameter exactly when a name it reads has no value. -/
theorem bind_missing_iff (hus : Lexes (lexeme plainForms true) q us) :
    (∃ x, bind q params ph = some (.error (missingValue x))) ↔
      ∃ x ∈ paramNames us, params x = none := by
  rw [bind_eq params ph hus, bindingOf]
  cases hm : firstMissing params us with
  | none =>
      have hall := firstMissing_eq_none_iff.mp hm
      refine iff_of_false ?_ ?_
      · rintro ⟨x, hx⟩
        cases hx
      · rintro ⟨x, hx, hn⟩
        exact hall x hx hn
  | some x =>
      refine iff_of_true ⟨x, rfl⟩ ⟨x, List.mem_of_find?_eq_some hm, ?_⟩
      simpa using List.find?_some hm

theorem bind_ok (hus : Lexes (lexeme plainForms true) q us)
    (hall : ∀ x ∈ paramNames us, params x ≠ none) :
    bind q params ph = some (.ok (sqlText ph 0 us, (paramNames us).filterMap params)) := by
  rw [bind_eq params ph hus, bindingOf, firstMissing_eq_none_iff.mpr hall]

/-- The names a successful `Bind` substituted are the names it read. -/
theorem bind_tagged_names (hus : Lexes (lexeme plainForms true) q us) {sql : Text}
    {args : List (Text × α)} (h : bind q (tagged params) ph = some (.ok (sql, args))) :
    args.map Prod.fst = paramNames us := by
  rw [bind_eq (tagged params) ph hus, bindingOf, firstMissing_tagged] at h
  cases hm : firstMissing params us with
  | some x => simp [hm] at h
  | none =>
      rw [hm] at h
      cases h
      exact filterMap_tagged (firstMissing_eq_none_iff.mp hm)

end Reading

/-! ## What a passed validation establishes -/

theorem checkUsed_ok {declared used : List Text} (h : (checkUsed declared used).run = some (.ok ())) :
    ∀ x ∈ used, x ∈ declared := by
  induction used with
  | nil => simp
  | cons name used ih =>
      obtain ⟨_, hname, hrest⟩ := Fallible.run_bind_eq_ok h
      refine List.forall_mem_cons.mpr ⟨containsParam_iff.mp ?_, ih hrest⟩
      by_contra hno
      simp only [if_neg hno] at hname
      cases hname

theorem Published.declared {compileError : Text → Option Text} {walk : List Text → List Text}
    {api : APIDefinition} {ps : List APIParameter} (h : Published compileError walk api ps)
    (hb : queryBuilderFromAPI api = .ok none) :
    ∃ used, extractParamNamesDialect (Strings.trimSpace api.queryTemplate) api.dialect = some used ∧
      ∀ x ∈ used, x ∈ ps.map APIParameter.name := by
  unfold Published validateForPublish at h
  rw [hb] at h
  obtain ⟨_, -, h⟩ := Fallible.run_bind_eq_ok h
  obtain ⟨used, hused, h⟩ := Fallible.run_bind_eq_ok h
  obtain ⟨_, hcheck, -⟩ := Fallible.run_bind_eq_ok h
  refine ⟨used, ?_, checkUsed_ok hcheck⟩
  change (extractParams _ _).map Except.ok = some (.ok used) at hused
  obtain ⟨names, hnames, heq⟩ := Option.map_eq_some_iff.mp hused
  cases heq
  exact hnames

/-! ## Agreement -/

/-- A total table: every name has a value. -/
def everyName : Table Unit := fun _ => some ()

theorem sameNames_iff_agrees {d : Dialect} {q : Text} : Agrees d q ↔ SameNames d q := by
  constructor
  · intro h ts us hts hus
    have hbind : bind q (tagged everyName) (placeholderForDialect d) = _ :=
      bind_ok hus fun _ _ => nofun
    have hnames := h.substituted (extract_eq_some_iff.mpr ⟨ts, hts, rfl⟩) hbind
    rwa [bind_tagged_names hus hbind] at hnames
  · intro h
    obtain ⟨us, hus⟩ := exists_lexes_plain q
    -- the extracted names are those `Bind` reads
    have hread : ∀ {names : List Text}, extractParamNamesDialect q d = some names →
        firstOccurrences (paramNames us) = names := by
      intro names hnames
      obtain ⟨ts, hts, rfl⟩ := extract_eq_some_iff.mp hnames
      exact h ts us hts hus
    have hmem : ∀ {names : List Text}, extractParamNamesDialect q d = some names →
        ∀ x, x ∈ paramNames us ↔ x ∈ names := by
      intro names hnames x
      rw [← hread hnames, mem_firstOccurrences]
    refine ⟨?_, ?_, ?_⟩
    · intro names hnames α params sql args hbind
      rw [bind_tagged_names hus hbind]
      exact hread hnames
    · intro names hnames α params
      rw [bind_missing_iff hus]
      exact exists_congr fun x => and_congr_left fun _ => hmem hnames x
    · intro names hnames compileError walk api ps hpub hb hq hd α params hall
      refine ⟨_, _, bind_ok hus fun x hx => ?_⟩
      obtain ⟨used, hused, hdecl⟩ := hpub.declared hb
      obtain ⟨ts, hts, rfl⟩ := extract_eq_some_iff.mp hnames
      obtain ⟨ts', _, _, hts', -, -, -, hsame⟩ := lexes_trimSpace hts
      obtain ⟨ts'', hts'', rfl⟩ := extract_eq_some_iff.mp hused
      rw [hq, hd] at hts''
      have hxused : x ∈ firstOccurrences (paramNames ts'') := by
        rw [hts''.unique (lexeme_consuming (publishForms_proper d) true) hts', ← hsame]
        exact (hmem hnames x).mp hx
      obtain ⟨p, hp, rfl⟩ := List.mem_map.mp (hdecl x hxused)
      exact Option.isSome_iff_ne_none.mp (hall p hp)

end DDAG.Gateway
