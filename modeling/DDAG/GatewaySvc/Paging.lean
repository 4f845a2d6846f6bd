import DDAG.GatewaySvc.Respond
import DDAG.Lib.Rows

/-!
# Pages

The limit, the offset and the page of a request, and a client that asks for one page after
another.

* `pagination_sound_iff` says when the three numbers are what the query string asks for: the
  numbers of the query string are multiplied and incremented in 64 bits, and nothing else can
  go wrong.  `last_page_wraps` is a page whose offset is negative.
* `listing_complete` says that a client that follows `has_next` has every row once, however the
  rows fall on the pages.
-/

namespace DDAG.GatewaySvc

open Models Gateway Connector Fallible

/-! ## The limit of a request -/

theorem one_le_effectiveLimit (cfg : GatewayConfig) (query : Values) (api : APIDefinition) :
    1 ≤ effectiveLimit cfg query api := by
  simp only [effectiveLimit]
  unfold positiveOr
  split <;> omega

theorem capped_le {max : Int} (hmax : 0 < max) (limit : Int) : capped limit max ≤ max := by
  unfold capped
  split
  next _ => exact Int.le_refl max
  next hnot => omega

theorem capped_le_self (limit max : Int) : capped limit max ≤ limit := by
  unfold capped
  split
  next h => exact Int.le_of_lt h.2
  next _ => exact Int.le_refl limit

theorem capped_pos {limit : Int} (hlimit : 0 < limit) (max : Int) : 0 < capped limit max := by
  unfold capped
  split
  next h => exact h.1
  next _ => exact hlimit

theorem positiveOr_of_pos {limit : Int} (hlimit : 0 < limit) (fallback : Int) :
    positiveOr limit fallback = limit := if_neg (by omega)

theorem queryInt_eq_some {query : Values} {name : String} {ok : Int → Bool} {n : Int}
    (h : queryInt query name ok = some n) : ok n = true := (Option.filter_eq_some_iff.mp h).2

/-- With a default there is nothing to fall back to, and both maxima hold. -/
theorem effectiveLimit_le (cfg : GatewayConfig) (query : Values) {api : APIDefinition}
    (hdefault : 0 < api.defaultLimit) :
    (0 < api.maxLimit → effectiveLimit cfg query api ≤ api.maxLimit) ∧
      (0 < cfg.maxLimit → effectiveLimit cfg query api ≤ cfg.maxLimit) := by
  obtain ⟨asked, hasked⟩ : ∃ n, (queryInt query "limit" (0 < ·)).getD api.defaultLimit = n := ⟨_, rfl⟩
  have hpos : 0 < asked := by
    rw [← hasked]
    cases hlimit : queryInt query "limit" (0 < ·) with
    | none => exact hdefault
    | some n => exact of_decide_eq_true (queryInt_eq_some hlimit)
  have heq : effectiveLimit cfg query api = capped (capped asked api.maxLimit) cfg.maxLimit := by
    have hcapped := capped_pos (capped_pos hpos api.maxLimit) cfg.maxLimit
    rw [effectiveLimit, hasked, positiveOr_of_pos hcapped, positiveOr_of_pos hcapped]
  rw [heq]
  constructor
  · intro hmax
    exact Int.le_trans (capped_le_self _ _) (capped_le hmax asked)
  · intro hmax
    exact capped_le hmax _

/-! ## The page of a request -/

section Page

variable (cfg : GatewayConfig) (query : Values) (api : APIDefinition)

theorem pagination_cases :
    (∃ n, queryInt query "offset" (0 ≤ ·) = some n ∧ 0 ≤ n ∧
      pagination cfg query api =
        { limit := effectiveLimit cfg query api, offset := n
          page := wrap (n.tdiv (effectiveLimit cfg query api) + 1) }) ∨
    (queryInt query "offset" (0 ≤ ·) = none ∧ ∃ n, queryInt query "page" (0 < ·) = some n ∧ 0 < n ∧
      pagination cfg query api =
        { limit := effectiveLimit cfg query api
          offset := wrap ((n - 1) * effectiveLimit cfg query api), page := n }) ∨
    (queryInt query "offset" (0 ≤ ·) = none ∧ queryInt query "page" (0 < ·) = none ∧
      pagination cfg query api = { limit := effectiveLimit cfg query api, offset := 0, page := 1 }) := by
  unfold pagination
  cases hoffset : queryInt query "offset" (0 ≤ ·) with
  | some n => exact .inl ⟨n, rfl, of_decide_eq_true (queryInt_eq_some hoffset), rfl⟩
  | none =>
      cases hpage : queryInt query "page" (0 < ·) with
      | some n => exact .inr (.inl ⟨rfl, n, rfl, of_decide_eq_true (queryInt_eq_some hpage), rfl⟩)
      | none => exact .inr (.inr ⟨rfl, rfl, rfl⟩)

theorem pagination_limit : (pagination cfg query api).limit = effectiveLimit cfg query api := by
  rcases pagination_cases cfg query api with ⟨n, -, -, heq⟩ | ⟨-, n, -, -, heq⟩ | ⟨-, -, heq⟩
  · rw [heq]
  · rw [heq]
  · rw [heq]

end Page

theorem prepare_page {lib : Library} {cfg : GatewayConfig} {api : APIDefinition}
    {declared : List APIParameter} {i : Inputs} {p : Prepared}
    (h : prepare lib cfg api declared i = .ok p) : p.page = pagination cfg i.query api := by
  obtain ⟨params, _, h⟩ := bind_eq_ok.mp h
  obtain ⟨built, _, h⟩ := bind_eq_ok.mp h
  cases h
  rfl

theorem wrap_eq_iff {n : Int} (hn : 0 ≤ n) : wrap n = n ↔ n < 2 ^ 63 := by
  unfold wrap
  rw [Int.bmod_def]
  split <;> omega

/-- The numbers of a request are within their limits, and belong together. -/
structure Page.Sound (cfg : GatewayConfig) (query : Values) (api : APIDefinition) (p : Page) : Prop where
  limit_pos : 1 ≤ p.limit
  limit_le_api : 0 < api.maxLimit → p.limit ≤ api.maxLimit
  limit_le_gateway : 0 < cfg.maxLimit → p.limit ≤ cfg.maxLimit
  offset_nonneg : 0 ≤ p.offset
  page_pos : 1 ≤ p.page
  /-- Without an offset of its own, the request has the offset of its page. -/
  offset_eq : queryInt query "offset" (0 ≤ ·) = none → p.offset = (p.page - 1) * p.limit
  page_eq : p.page = p.offset / p.limit + 1

/-- The numbers of the query string do not leave 64 bits: the page of the offset, or without one
the offset of the page. -/
structure InRange (cfg : GatewayConfig) (query : Values) (api : APIDefinition) : Prop where
  page : ∀ n, queryInt query "offset" (0 ≤ ·) = some n → n / effectiveLimit cfg query api + 1 < 2 ^ 63
  offset : queryInt query "offset" (0 ≤ ·) = none → ∀ n, queryInt query "page" (0 < ·) = some n →
    (n - 1) * effectiveLimit cfg query api < 2 ^ 63

section Sound

variable {cfg : GatewayConfig} {query : Values} {api : APIDefinition} (hdefault : 0 < api.defaultLimit)

include hdefault

theorem sound_of_numbers {offset page : Int} (hoffset : 0 ≤ offset) (hpage : 1 ≤ page)
    (hoffset_eq : queryInt query "offset" (0 ≤ ·) = none →
      offset = (page - 1) * effectiveLimit cfg query api)
    (hpage_eq : page = offset / effectiveLimit cfg query api + 1) :
    Page.Sound cfg query api
      { limit := effectiveLimit cfg query api, offset := offset, page := page } where
  limit_pos := one_le_effectiveLimit cfg query api
  limit_le_api := (effectiveLimit_le cfg query hdefault).1
  limit_le_gateway := (effectiveLimit_le cfg query hdefault).2
  offset_nonneg := hoffset
  page_pos := hpage
  offset_eq := hoffset_eq
  page_eq := hpage_eq

/-- A request with an offset: its page must not wrap. -/
theorem sound_of_offset_iff {n : Int} (hn : 0 ≤ n)
    (hoffset : queryInt query "offset" (0 ≤ ·) = some n) :
    Page.Sound cfg query api
        { limit := effectiveLimit cfg query api, offset := n
          page := wrap (n.tdiv (effectiveLimit cfg query api) + 1) } ↔
      n / effectiveLimit cfg query api + 1 < 2 ^ 63 := by
  have hquot : 0 ≤ n / effectiveLimit cfg query api :=
    Int.ediv_nonneg hn (by have := one_le_effectiveLimit cfg query api; omega)
  rw [Int.tdiv_eq_ediv_of_nonneg hn, ← wrap_eq_iff (by omega)]
  constructor
  · exact fun hsound => hsound.page_eq
  · intro hwrap
    rw [hwrap]
    refine sound_of_numbers hdefault hn (by omega) (fun hnone => ?_) rfl
    cases hnone.symm.trans hoffset

/-- A request with a page and no offset: its offset must not wrap. -/
theorem sound_of_page_iff {n : Int} (hn : 0 < n)
    (hoffset : queryInt query "offset" (0 ≤ ·) = none) :
    Page.Sound cfg query api
        { limit := effectiveLimit cfg query api
          offset := wrap ((n - 1) * effectiveLimit cfg query api), page := n } ↔
      (n - 1) * effectiveLimit cfg query api < 2 ^ 63 := by
  have hone := one_le_effectiveLimit cfg query api
  have hprod : 0 ≤ (n - 1) * effectiveLimit cfg query api := Int.mul_nonneg (by omega) (by omega)
  rw [← wrap_eq_iff hprod]
  constructor
  · exact fun hsound => hsound.offset_eq hoffset
  · intro hwrap
    rw [hwrap]
    refine sound_of_numbers hdefault hprod hn (fun _ => rfl) ?_
    rw [Int.mul_ediv_cancel _ (by omega)]
    omega

end Sound

/-- For an API with a default limit the numbers of every request are within their limits and
belong together, exactly if they do not leave 64 bits. -/
theorem pagination_sound_iff (cfg : GatewayConfig) (query : Values) {api : APIDefinition}
    (hdefault : 0 < api.defaultLimit) :
    (pagination cfg query api).Sound cfg query api ↔ InRange cfg query api := by
  rcases pagination_cases cfg query api with
    ⟨n, hoffset, hn, heq⟩ | ⟨hoffset, n, hpage, hn, heq⟩ | ⟨hoffset, hpage, heq⟩
  · rw [heq, sound_of_offset_iff hdefault hn hoffset]
    constructor
    · intro hlt
      refine ⟨fun m hm => ?_, fun hnone => ?_⟩
      · cases hoffset.symm.trans hm
        exact hlt
      · cases hnone.symm.trans hoffset
    · exact fun hrange => hrange.page n hoffset
  · rw [heq, sound_of_page_iff hdefault hn hoffset]
    constructor
    · intro hlt
      refine ⟨fun m hm => ?_, fun _ m hm => ?_⟩
      · cases hoffset.symm.trans hm
      · cases hpage.symm.trans hm
        exact hlt
    · exact fun hrange => hrange.offset hoffset n hpage
  · rw [heq]
    constructor
    · intro _
      refine ⟨fun m hm => ?_, fun _ m hm => ?_⟩
      · cases hoffset.symm.trans hm
      · cases hpage.symm.trans hm
    · intro _
      exact sound_of_numbers hdefault (Int.le_refl 0) (Int.le_refl 1) (fun _ => by simp) (by simp)

def asks (name : String) (n : Int) : Values where
  entries := [(name.toList, [Strings.decimalInt n])]
  nodup := List.nodup_singleton _

def hundred : APIDefinition := { defaultLimit := 100, maxLimit := 100 }

def thousand : GatewayConfig := { defaultLimit := 100, maxLimit := 1000 }

/-- The third page begins behind two hundred rows. -/
theorem third_page_sound :
    (pagination thousand (asks "page" 3) hundred).offset = 200 ∧
      (pagination thousand (asks "page" 3) hundred).Sound thousand (asks "page" 3) hundred := by
  have hoffset : queryInt (asks "page" 3) "offset" (0 ≤ ·) = none := by decide +kernel
  have hpage : queryInt (asks "page" 3) "page" (0 < ·) = some 3 := by decide +kernel
  have hlimit : effectiveLimit thousand (asks "page" 3) hundred = 100 := by decide +kernel
  refine ⟨by decide +kernel, (pagination_sound_iff thousand (asks "page" 3) (by decide)).mpr ?_⟩
  refine ⟨fun n hn => ?_, fun _ n hn => ?_⟩
  · cases hoffset.symm.trans hn
  · cases hpage.symm.trans hn
    rw [hlimit]
    decide

/-- The offset of the last page that can be asked for is negative, so that the first page is
served for it; and the page of the last offset is negative, with one row to a page. -/
theorem last_page_wraps :
    pagination thousand (asks "page" (2 ^ 63 - 1)) hundred =
        { limit := 100, offset := -200, page := 2 ^ 63 - 1 } ∧
      pagination thousand (asks "offset" (2 ^ 63 - 1)) { hundred with defaultLimit := 1 } =
        { limit := 1, offset := 2 ^ 63 - 1, page := -2 ^ 63 } := by
  decide +kernel

/-! ## Asking for a page -/

/-- The query string with another page. -/
def withPage (query : Values) (page : Nat) : Values where
  entries := ("page".toList, [Strings.decimal page]) :: query.entries.filter (·.1 ≠ "page".toList)
  nodup := by
    rw [List.map_cons, List.nodup_cons]
    constructor
    · simp
    · exact query.nodup.sublist (List.filter_sublist.map Prod.fst)

theorem withPage_at_page (query : Values) (page : Nat) :
    (withPage query page).at "page".toList = [Strings.decimal page] := by
  simp [Values.at, withPage]

theorem lookup_filter_ne {es : List (Text × List Text)} {name other : Text} (hne : name ≠ other) :
    (es.filter (·.1 ≠ other)).lookup name = es.lookup name := by
  induction es with
  | nil => rfl
  | cons e es ih =>
      by_cases hother : e.1 = other
      · have hskip : (name == e.1) = false := by simpa [hother] using hne
        rw [List.filter_cons_of_neg (by simpa using hother), ih, List.lookup_cons, hskip]
      · rw [List.filter_cons_of_pos (by simpa using hother), List.lookup_cons, List.lookup_cons, ih]

theorem withPage_at_other (query : Values) (page : Nat) {name : Text} (hne : name ≠ "page".toList) :
    (withPage query page).at name = query.at name := by
  have hskip : (name == "page".toList) = false := by simpa using hne
  rw [Values.at, withPage, List.lookup_cons, hskip]
  exact congrArg (·.getD []) (lookup_filter_ne hne)

theorem withPage_queryInt (query : Values) (page : Nat) {name : String}
    (hne : name.toList ≠ "page".toList) (ok : Int → Bool) :
    queryInt (withPage query page) name ok = queryInt query name ok := by
  rw [queryInt, Values.get, withPage_at_other query page hne, queryInt, Values.get]

/-- The page that is asked for has the limit of the query string, and its own offset unless that
leaves 64 bits. -/
theorem pagination_withPage (cfg : GatewayConfig) {query : Values} (api : APIDefinition) {page : Nat}
    (hoffset : queryInt query "offset" (0 ≤ ·) = none) (hpage : 1 ≤ page) (hlt : page < 2 ^ 63)
    (hrange : (page - 1 : Int) * effectiveLimit cfg query api < 2 ^ 63) :
    pagination cfg (withPage query page) api =
      { limit := effectiveLimit cfg query api
        offset := (page - 1) * effectiveLimit cfg query api, page := page } := by
  have hlimit : effectiveLimit cfg (withPage query page) api = effectiveLimit cfg query api := by
    rw [effectiveLimit, withPage_queryInt query page (by decide), effectiveLimit]
  have hasked : queryInt (withPage query page) "page" (0 < ·) = some (page : Int) := by
    rw [queryInt, Values.get, withPage_at_page, List.headD_cons, Strings.parseInt_decimal, if_pos hlt]
    exact Option.filter_eq_some_iff.mpr ⟨rfl, decide_eq_true (by omega)⟩
  have hone := one_le_effectiveLimit cfg query api
  have hwrap := (wrap_eq_iff (Int.mul_nonneg (by omega) (by omega))).mpr hrange
  have hnone : queryInt (withPage query page) "offset" (0 ≤ ·) = none := by
    rw [withPage_queryInt query page (by decide), hoffset]
  rcases pagination_cases cfg (withPage query page) api with
    ⟨n, hn, -, -⟩ | ⟨-, n, hn, -, heq⟩ | ⟨-, hn, -⟩
  · cases hnone.symm.trans hn
  · cases hasked.symm.trans hn
    rw [heq, hlimit, hwrap]
  · cases hasked.symm.trans hn

/-! ## Listing -/

/-- The JSON of rows, and how a client reads it. -/
structure RowsJSON (ρ : Type*) where
  encode : List ρ → Text
  decode : Text → List ρ
  decode_encode : ∀ rows, decode (encode rows) = rows
  decode_nothing : decode [] = []
  decode_null : decode "null".toList = []
  decode_empty : decode "[]".toList = []

section Listing

variable {ρ : Type*} (json : PayloadCodec) (codec : RowsJSON ρ)

/-- The source has these rows, and returns those that a limit and an offset select. -/
def ServesRows (rows : List ρ) (source : (limit offset : Int) → ConnectorResponse) : Prop :=
  ∀ limit offset : Nat, 1 ≤ limit →
    (source limit offset).rows = codec.encode ((rows.drop offset).take limit) ∧
      (source limit offset).rowCount = ((rows.drop offset).take limit).length

/-- The payload of a request that is answered by the source. -/
def payloadOf (cfg : GatewayConfig) (api : APIDefinition)
    (source : (limit offset : Int) → ConnectorResponse) (query : Values) : Payload :=
  let page := pagination cfg query api
  buildPayload json (source page.limit page.offset) (api.maxLimit ≠ 1) page

/-- What a client has from a payload: its rows, and whether there is a next page. -/
def readPayload (p : Payload) : List ρ × Bool :=
  (codec.decode p.data, p.pagination.any Pagination.hasNext)

/-- The rows of a list are read as they were written, also if there are none. -/
theorem readPayload_buildPayload {resp : ConnectorResponse} {rows : List ρ}
    (hrows : resp.rows = codec.encode rows) (page : Page) :
    readPayload codec (buildPayload json resp true page) =
      (rows, decide (resp.rowCount = page.limit)) := by
  have hdecode : codec.decode resp.rows = rows := by rw [hrows, codec.decode_encode]
  unfold buildPayload readPayload
  simp only [Bool.not_true, Bool.false_eq_true, if_false, Option.any_some, Prod.mk.injEq, and_true]
  split
  next hnone =>
    rw [codec.decode_empty]
    rcases hnone with hnothing | hnull
    · rw [← hdecode, hnothing, codec.decode_nothing]
    · rw [← hdecode, hnull, codec.decode_null]
  next _ => exact hdecode

/-- Without a cache rule, what `serve` answers once the source has answered is this payload. -/
theorem respond_eq_payloadOf {J δ : Type*} [DecidableEq δ] {wire : Codec J}
    {digest : Table Value × Option Text → δ} {lib : Library} {cfg : GatewayConfig} {q : DataRequest}
    {t : Turn} {cache : ResponseCache δ} {p : Prepared}
    (hprepare : prepare lib cfg q.api q.declared q.inputs = .ok p) (hrule : q.cacheEnabled = false)
    {source : (limit offset : Int) → ConnectorResponse}
    (hload : (load wire q.api t.acquired t.lines (q.loadArgs p)).1 =
      .ok (source p.page.limit p.page.offset)) :
    (respond json wire digest lib cfg q t cache).answer =
      .loaded (payloadOf json cfg q.api source q.inputs.query) := by
  have hlookup : lookupCached digest q p t cache = none := by simp [lookupCached, hrule]
  rw [respond, hprepare]
  simp only [respondPrepared, hlookup, dispatch, resolvePayload, hrule, Bool.not_false, if_true,
    ite_self, hload, answerOf, payloadOf]
  rw [prepare_page hprepare]
  rfl

/-- A client that asks for the pages of a list one after another, as long as `has_next` is true,
is done after one request for each full page and one more, and has every row once. -/
theorem listing_complete (cfg : GatewayConfig) {api : APIDefinition} (hlist : api.maxLimit ≠ 1)
    {rows : List ρ} {source : (limit offset : Int) → ConnectorResponse}
    (hserves : ServesRows codec rows source) (hrows : rows.length < 2 ^ 31) {query : Values}
    (hoffset : queryInt query "offset" (0 ≤ ·) = none) :
    Rows.collect
        (fun page => readPayload codec (payloadOf json cfg api source (withPage query page)))
        (rows.length / (effectiveLimit cfg query api).toNat + 1) 1 = some rows := by
  obtain ⟨limit, hlimit⟩ := Int.eq_ofNat_of_zero_le
    (Int.le_trans (by decide) (one_le_effectiveLimit cfg query api))
  have hone : 1 ≤ limit := by
    have hpos := one_le_effectiveLimit cfg query api
    omega
  rw [hlimit, Int.toNat_natCast]
  refine Rows.collect_eq hone fun page hpage hle => ?_
  -- the page begins within the rows
  have hbegin : (page - 1) * limit ≤ rows.length :=
    calc (page - 1) * limit ≤ rows.length / limit * limit := Nat.mul_le_mul_right limit (by omega)
      _ ≤ rows.length := Nat.div_mul_le_self _ _
  have hbegin' : (page - 1 : Int) * limit = ((page - 1) * limit : Nat) := by
    rw [Int.natCast_mul, Int.ofNat_sub hpage]
    rfl
  have hfew : rows.length / limit ≤ rows.length := Nat.div_le_self _ _
  have hpagination := pagination_withPage cfg api hoffset hpage (by omega)
    (by rw [hlimit, hbegin']; omega)
  obtain ⟨hencoded, hcount⟩ := hserves limit ((page - 1) * limit) hone
  rw [payloadOf, hpagination, hlimit, hbegin']
  simp only [hlist, ne_eq, not_false_eq_true, decide_true]
  rw [readPayload_buildPayload json codec hencoded, hcount]
  exact Prod.ext rfl (decide_eq_decide.mpr Int.ofNat_inj)

end Listing

/-- Rows of one bit. -/
def bitRows : RowsJSON Bool where
  encode rows := '[' :: rows.map (if · then '1' else '0') ++ [']']
  decode text := (text.filter fun c => c = '0' ∨ c = '1').map (· = '1')
  decode_encode rows := by
    induction rows with
    | nil => rfl
    | cons b rows ih => cases b <;> simpa using ih
  decode_nothing := rfl
  decode_null := rfl
  decode_empty := rfl

/-- A source with these rows. -/
def bitSource (rows : List Bool) (limit offset : Int) : ConnectorResponse where
  durationMS := 1
  rowCount := ((rows.drop offset.toNat).take limit.toNat).length
  circuitState := "closed".toList
  rows := bitRows.encode ((rows.drop offset.toNat).take limit.toNat)

/-- Four rows, two to a page: the second page is full, and an empty one comes behind it. -/
theorem four_rows_listed :
    Rows.collect
        (fun page => readPayload bitRows
          (payloadOf rowCodec thousand hundred (bitSource [true, false, false, true])
            (withPage (asks "limit" 2) page))) 3 1 = some [true, false, false, true] := by
  have hlimit : effectiveLimit thousand (asks "limit" 2) hundred = 2 := by decide +kernel
  have hlist : hundred.maxLimit ≠ 1 := by decide
  have hoffset : queryInt (asks "limit" 2) "offset" (0 ≤ ·) = none := by decide +kernel
  have hserves : ServesRows bitRows [true, false, false, true] (bitSource [true, false, false, true]) :=
    fun limit offset _ => ⟨rfl, rfl⟩
  have hlisted := listing_complete rowCodec bitRows thousand hlist hserves (by decide) hoffset
  rw [hlimit] at hlisted
  exact hlisted

end DDAG.GatewaySvc
