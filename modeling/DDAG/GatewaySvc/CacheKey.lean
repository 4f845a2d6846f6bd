import DDAG.Gateway.Clauses
import DDAG.GatewaySvc.Serve

/-!
# The cache key and the query it stands for

Two requests with one cache key are answered by one query, so the key must tell
apart requests that run different queries.  It does not always: the key reads
all values of a name joined by commas, where the builder reads the first one, and
it writes names of its own over declared parameters of the same names.

`same_key_same_query` says when it does.  `sort_values_share_key` is a pair of
requests with one key and two queries.
-/

namespace DDAG.GatewaySvc

open Models Gateway Fallible

/-! ## What the key holds -/

/-- The names `cacheVariantParams` writes itself. -/
def Written (query : Values) (k : Text) : Prop :=
  k = limitKey ∨ k = offsetKey ∨ ∃ name, k = queryKey name ∧ query.at name ≠ []

/-- The names the loop over the query string does not write keep their values. -/
theorem variant_other {es : List (Text × List Text)} {m : Table Value} {k : Text}
    (h : ∀ e ∈ es, e.2 ≠ [] → k ≠ queryKey e.1) : es.foldl variantStep m k = m k := by
  induction es generalizing m with
  | nil => rfl
  | cons e rest ih =>
      rw [List.foldl_cons, ih fun e' he' => h e' (List.mem_cons_of_mem e he')]
      unfold variantStep
      split
      next _ => rfl
      next hne => exact Function.update_of_ne (h e List.mem_cons_self hne) _ _

theorem queryKey_head (name : Text) : (queryKey name).head? = some 'q' := rfl

theorem ne_queryKey {k : Text} (h : k.head? = some 'd') (name : Text) : k ≠ queryKey name := by
  intro hk
  rw [hk, queryKey_head] at h
  cases h

section Variant

variable (params : Table Value) (query : Values) (limit offset : Int)

theorem cacheVariantParams_limit :
    cacheVariantParams params query limit offset limitKey = some (.int limit) := by
  rw [cacheVariantParams, variant_other fun e _ _ => ne_queryKey rfl e.1]
  rw [setKey, Function.update_of_ne (by decide)]
  exact Function.update_self _ _ _

theorem cacheVariantParams_offset :
    cacheVariantParams params query limit offset offsetKey = some (.int offset) := by
  rw [cacheVariantParams, variant_other fun e _ _ => ne_queryKey rfl e.1]
  exact Function.update_self _ _ _

theorem at_of_mem {query : Values} {e : Text × List Text} (he : e ∈ query.entries) :
    query.at e.1 = e.2 := by
  obtain ⟨before, rest, hsplit⟩ := List.append_of_mem he
  have hnodup := query.nodup
  rw [hsplit, List.map_append, List.map_cons, List.nodup_middle, List.nodup_cons] at hnodup
  have hlookup : query.entries.lookup e.1 = some e.2 := by
    refine List.lookup_eq_some_iff.mpr ⟨before, rest, hsplit, fun p hp => ?_⟩
    have hne : e.1 ≠ p.1 := by
      intro heq
      apply hnodup.1
      rw [heq]
      exact List.mem_append_left _ (List.mem_map_of_mem hp)
    simpa using hne
  rw [Values.at, hlookup]
  rfl

/-- A name the key does not write has the value of the request's parameter. -/
theorem cacheVariantParams_other {k : Text} (h : ¬ Written query k) :
    cacheVariantParams params query limit offset k = params k := by
  rw [cacheVariantParams, variant_other]
  · rw [setKey, Function.update_of_ne fun hk => h (.inr (.inl hk))]
    exact Function.update_of_ne (fun hk => h (.inl hk)) _ _
  · intro e he hne hk
    exact h (.inr (.inr ⟨e.1, hk, by rwa [at_of_mem he]⟩))

end Variant

/-- The builder generates no name that the key writes. -/
theorem written_not_generated {query : Values} {k : Text} (h : Written query k) :
    ¬ filterMark <+: k := by
  rcases h with rfl | rfl | ⟨name, rfl, -⟩
  · decide
  · decide
  · rintro ⟨rest, hrest⟩
    exact ne_queryKey rfl name hrest

/-! ## One key, one query -/

theorem prepare_eq {lib : Library} {cfg : GatewayConfig} {api : APIDefinition}
    {declared : List APIParameter} {i : Inputs} {p : Prepared}
    (h : prepare lib cfg api declared i = .ok p) :
    resolveParams lib declared i = .ok p.params ∧
      buildDynamicQuery api i.query p.params = .ok p.built ∧
      p.cacheParams = cacheVariantParams p.built.params i.query p.page.limit p.page.offset := by
  obtain ⟨params, hparams, h⟩ := bind_eq_ok.mp h
  obtain ⟨built, hbuilt, h⟩ := bind_eq_ok.mp h
  cases h
  exact ⟨hparams, hbuilt, rfl⟩

theorem key_eq_iff {δ : Type*} {digest : Table Value × Option Text → δ}
    (hinj : Function.Injective digest) {apiID : Id} {client client' : Text} {vary : Bool}
    {params params' : Table Value} :
    key digest apiID client vary params = key digest apiID client' vary params' ↔
      params = params' ∧ (vary = true → client = client') := by
  simp only [key, CacheKey.mk.injEq, true_and, hinj.eq_iff, Prod.mk.injEq]
  cases vary <;> simp

/-- Both requests run one query. -/
structure SameQuery (p p' : Prepared) : Prop where
  sql : p.built.sql = p'.built.sql
  params : p.built.params = p'.built.params
  limit : p.page.limit = p'.page.limit
  offset : p.page.offset = p'.page.offset

/-- Declared parameters that the key of one of the requests writes over have the
same values in both. -/
def SameWritten (declared : List APIParameter) (query query' : Values) (p p' : Prepared) : Prop :=
  ∀ d ∈ declared, Written query d.name ∨ Written query' d.name → p.params d.name = p'.params d.name

section Pair

variable {lib : Library} {cfg : GatewayConfig} {api : APIDefinition} {declared : List APIParameter}
  {i i' : Inputs} {p p' : Prepared}

/-- The key tells the bound parameters apart, but for those it writes over. -/
theorem params_eq_iff (h : prepare lib cfg api declared i = .ok p)
    (h' : prepare lib cfg api declared i' = .ok p') (hkey : p.cacheParams = p'.cacheParams) :
    p.built.params = p'.built.params ↔ SameWritten declared i.query i'.query p p' := by
  obtain ⟨hres, hbuilt, hvar⟩ := prepare_eq h
  obtain ⟨hres', hbuilt', hvar'⟩ := prepare_eq h'
  have hresolved : ∀ k, Written i.query k ∨ Written i'.query k →
      p.built.params k = p.params k ∧ p'.built.params k = p'.params k := by
    intro k hk
    have hmark : ¬ filterMark <+: k := hk.elim written_not_generated written_not_generated
    exact ⟨buildDynamicQuery_params hbuilt hmark, buildDynamicQuery_params hbuilt' hmark⟩
  constructor
  · intro hsame d _ hd
    rw [← (hresolved d.name hd).1, ← (hresolved d.name hd).2, hsame]
  · intro hsame
    funext k
    by_cases hk : Written i.query k ∨ Written i'.query k
    · rw [(hresolved k hk).1, (hresolved k hk).2]
      by_cases hd : ∃ d ∈ declared, d.name = k
      · obtain ⟨d, hd, rfl⟩ := hd
        exact hsame d hd hk
      · have hundeclared : ∀ d ∈ declared, d.name ≠ k := fun d hmem hname => hd ⟨d, hmem, hname⟩
        rw [resolveParams_undeclared lib hres hundeclared,
          resolveParams_undeclared lib hres' hundeclared]
    · -- a name neither key writes stands in both keys with its own value
      rw [not_or] at hk
      calc p.built.params k
          = p.cacheParams k := by rw [hvar, cacheVariantParams_other _ _ _ _ hk.1]
        _ = p'.cacheParams k := by rw [hkey]
        _ = p'.built.params k := by rw [hvar', cacheVariantParams_other _ _ _ _ hk.2]

theorem page_eq (h : prepare lib cfg api declared i = .ok p)
    (h' : prepare lib cfg api declared i' = .ok p') (hkey : p.cacheParams = p'.cacheParams) :
    p.page.limit = p'.page.limit ∧ p.page.offset = p'.page.offset := by
  obtain ⟨-, -, hvar⟩ := prepare_eq h
  obtain ⟨-, -, hvar'⟩ := prepare_eq h'
  rw [hvar, hvar'] at hkey
  have hlimit := congrFun hkey limitKey
  have hoffset := congrFun hkey offsetKey
  rw [cacheVariantParams_limit, cacheVariantParams_limit] at hlimit
  rw [cacheVariantParams_offset, cacheVariantParams_offset] at hoffset
  exact ⟨Value.int.inj (Option.some.inj hlimit), Value.int.inj (Option.some.inj hoffset)⟩

/-- Two requests with one cache key run one query if the declared parameters the
key writes over have the same values, and the builder, if there is one, is given
values of the same shapes.  The first condition is necessary, and without a
builder the two are all there is. -/
theorem same_key_same_query {δ : Type*} {digest : Table Value × Option Text → δ}
    (hinj : Function.Injective digest) (apiID : Id) (client client' : Text) (vary : Bool)
    (h : prepare lib cfg api declared i = .ok p) (h' : prepare lib cfg api declared i' = .ok p')
    (hkey : key digest apiID client vary p.cacheParams =
      key digest apiID client' vary p'.cacheParams) :
    (SameQuery p p' → SameWritten declared i.query i'.query p p') ∧
      (SameWritten declared i.query i'.query p p' →
        (∀ c, queryBuilderFromAPI api = .ok (some c) → SameShape c i.query i'.query) →
        SameQuery p p') := by
  obtain ⟨hcache, -⟩ := (key_eq_iff hinj).mp hkey
  have hparams := params_eq_iff h h' hcache
  refine ⟨fun hsame => hparams.mp hsame.params, fun hwritten hshape => ?_⟩
  obtain ⟨-, hbuilt, -⟩ := prepare_eq h
  obtain ⟨-, hbuilt', -⟩ := prepare_eq h'
  obtain ⟨hlimit, hoffset⟩ := page_eq h h' hcache
  exact ⟨buildDynamicQuery_sql hshape hbuilt hbuilt', hparams.mpr hwritten, hlimit, hoffset⟩

end Pair

def noLibrary : Library :=
  { compile := fun _ => none, parseFloat := fun _ => none, isUUID := fun _ => false,
    formatFloat := fun _ => [] }

/-- A request with these values of one name in its query string. -/
def queryOf (name : String) (values : List String) : Inputs :=
  { pathParams := fun _ => none
    query := { entries := [(name.toList, values.map String.toList)], nodup := List.nodup_singleton _ }
    body := fun _ => none }

/-- Without a builder `?a=1&a=2` and `?a=1,2` run the same template. -/
theorem same_key_same_template :
    let api : APIDefinition := { queryTemplate := "SELECT 1".toList, defaultLimit := 10 }
    let cfg : GatewayConfig := { defaultLimit := 100, maxLimit := 1000 }
    ∃ p p', prepare noLibrary cfg api [] (queryOf "a" ["1", "2"]) = .ok p ∧
      prepare noLibrary cfg api [] (queryOf "a" ["1,2"]) = .ok p' ∧ SameQuery p p' := by
  intro api cfg
  have h : prepare noLibrary cfg api [] (queryOf "a" ["1", "2"]) = .ok _ := rfl
  have h' : prepare noLibrary cfg api [] (queryOf "a" ["1,2"]) = .ok _ := rfl
  refine ⟨_, _, h, h', ?_⟩
  have hsame := same_key_same_query Function.injective_id 0 [] [] false h h' rfl
  exact hsame.2 (fun d hd => nomatch hd) (fun c hc => nomatch hc)

/-- The requests `?sort=a&sort=b` and `?sort=a,b` have one key.  The first is
sorted by one column, the second by two. -/
theorem sort_values_share_key :
    let builder : QueryBuilderConfig :=
      { baseTable := "t".toList, select := ["a".toList], joins := [], groupBy := [], filters := []
        sortableColumns := [⟨"a".toList, "a".toList⟩, ⟨"b".toList, "b".toList⟩], defaultSort := [] }
    let api : APIDefinition := { responseMapping := .envelope (some builder), defaultLimit := 10 }
    let cfg : GatewayConfig := { defaultLimit := 100, maxLimit := 1000 }
    let prepared (values : List String) := prepare noLibrary cfg api [] (queryOf "sort" values)
    (prepared ["a", "b"]).map (fun p => String.ofList p.built.sql) =
        .ok "SELECT a FROM t ORDER BY a ASC" ∧
      (prepared ["a,b"]).map (fun p => String.ofList p.built.sql) =
        .ok "SELECT a FROM t ORDER BY a ASC, b ASC" ∧
      (prepared ["a", "b"]).map (fun p => key id 0 [] false p.cacheParams) =
        (prepared ["a,b"]).map (fun p => key id 0 [] false p.cacheParams) := by
  refine ⟨?_, ?_, ?_⟩
  · decide +kernel
  · decide +kernel
  · rfl

end DDAG.GatewaySvc
