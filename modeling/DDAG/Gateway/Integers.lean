import DDAG.Connectors.Lexemes
import DDAG.Gateway.Params
import DDAG.Gateway.Transports

/-!
# Integers on their way to the database

An integer a client sends is a text or a JSON number, then an `int64`, then JSON
again, and then a floating-point number among the parameters of the connector,
which binds it.

`integer_arrives_iff` says which integers are bound as themselves: those with at
most 53 significant bits.
-/

namespace DDAG.Gateway

open Models Connectors Machine

/-- The integer is an `int64`. -/
def IsInt64 (n : Int) : Prop := -2 ^ 63 ≤ n ∧ n < 2 ^ 63

instance (n : Int) : Decidable (IsInt64 n) := inferInstanceAs (Decidable (_ ∧ _))

/-- The verb `%v` prints the floating-point number of an `int64` in plain decimal.
It does so for every integral number below `10 ^ 21`. -/
def PrintsPlain (lib : Library) : Prop :=
  ∀ n r : Int, IsInt64 n → Float64.round64 n = r →
    lib.formatFloat (Float64.ofRat n) = Strings.decimalInt r

/-- The client sends the integer for the parameter: as a decimal text, or in the
body also as a number, which is read into an `any`. -/
def Sends (p : APIParameter) (i : Inputs) (n : Int) : Prop :=
  match p.source with
  | .path => i.pathParams p.name = some (Strings.decimalInt n)
  | .query => (i.query.at p.name).head? = some (Strings.decimalInt n)
  | .body =>
      i.body p.name = some (.number (Float64.ofRat n)) ∨
        i.body p.name = some (.text (Strings.decimalInt n))
  | .other => False

/-- The number a bound argument denotes. -/
def Denotes : Value → Int → Prop
  | .int m, n => m = n
  | .number bits, n => Float64.value bits = some (n : ℚ)
  | _, _ => False

/-- A request for the parameter `p` of an API, and a template with the parameters
`names`: nothing stands in the way of `p` but its type. -/
structure Requests (lib : Library) (params : List APIParameter) (i : Inputs) (p : APIParameter)
    (names : List Text) : Prop where
  /-- The schema has names that are unique for an API. -/
  distinct : (params.map APIParameter.name).Nodup
  declared : p ∈ params
  checked : ∀ raw, supplied lib p i = some raw → checkLength p raw = .ok () ∧ checkRule lib p raw = .ok ()
  others : ∀ q ∈ params, q ≠ p → ∃ v, resolveParam lib q i = .ok v
  bound : ∀ name ∈ names, name ∈ params.map APIParameter.name
  used : p.name ∈ names

/-- The request is answered with a query in which every argument of the parameter
denotes the integer.  `names` are the parameters of the template in order. -/
def Arrives (lib : Library) (params : List APIParameter) (i : Inputs) (p : APIParameter)
    (template : Text) (names : List Text) (ph : Placeholder) (n : Int) : Prop :=
  ∃ out sql args, resolveParams lib params i = .ok out ∧
    Connectors.bind template (received out) ph = some (.ok (sql, args)) ∧
    ∀ k : ℕ, names[k]? = some p.name → ∃ v, args[k]? = some v ∧ Denotes v n

/-! ## The value of the parameter -/

section Value

variable {lib : Library} {p : APIParameter} {i : Inputs}

theorem supplied_of_rawValue {raw : Text} (h : rawValue lib p i = some raw) (hne : raw ≠ []) :
    supplied lib p i = some raw := by
  unfold supplied
  rw [h]
  cases raw with
  | nil => exact absurd rfl hne
  | cons c rest => rfl

/-- The text that is read is that of the integer, or of the number it was rounded to. -/
theorem supplied_of_sends (hprints : PrintsPlain lib) {n : Int} (hn : IsInt64 n)
    (h : Sends p i n) :
    ∃ m : Int, supplied lib p i = some (Strings.decimalInt m) ∧ (m = n ∨ Float64.round64 n = m) := by
  have hraw : ∃ m : Int, rawValue lib p i = some (Strings.decimalInt m) ∧
      (m = n ∨ Float64.round64 n = m) := by
    unfold Sends at h
    unfold rawValue
    cases hsource : p.source with
    | path =>
        rw [hsource] at h
        exact ⟨n, h, .inl rfl⟩
    | query =>
        rw [hsource] at h
        exact ⟨n, h, .inl rfl⟩
    | body =>
        rw [hsource] at h
        rcases h with h | h
        · obtain ⟨r, hr, -⟩ := Float64.exists_exact_round64 n
          refine ⟨r, ?_, .inr hr⟩
          simp only [h, Option.bind_some, sprint, hprints n r hn hr]
        · refine ⟨n, ?_, .inl rfl⟩
          simp only [h, Option.bind_some, sprint]
    | other =>
        rw [hsource] at h
        exact h.elim
  obtain ⟨m, hm, hor⟩ := hraw
  exact ⟨m, supplied_of_rawValue hm (Strings.decimalInt_ne_nil m), hor⟩

/-- The text of an integer has the integer as its value, if it has 64 bits. -/
theorem coerce_decimalInt (hint : p.paramType = .int) {m : Int} {v : Value} :
    coerce lib p (Strings.decimalInt m) = .ok v ↔ IsInt64 m ∧ v = .int m := by
  have hread : Strings.parseInt (Strings.decimalInt m) = if IsInt64 m then some m else none :=
    Strings.parseInt_decimalInt m
  simp only [coerce, hint, Strings.trimSpace_decimalInt, hread]
  by_cases hm : IsInt64 m
  · simp [mustBe, hm, eq_comm]
  · simp [mustBe, hm]

theorem resolveParam_integer (hint : p.paramType = .int) {m : Int} {v : Value}
    (hsupplied : supplied lib p i = some (Strings.decimalInt m))
    (hchecked : ∀ raw, supplied lib p i = some raw →
      checkLength p raw = .ok () ∧ checkRule lib p raw = .ok ()) :
    resolveParam lib p i = .ok v ↔ IsInt64 m ∧ v = .int m := by
  obtain ⟨hlength, hrule⟩ := hchecked _ hsupplied
  unfold resolveParam
  simp only [hsupplied, hlength, hrule]
  exact coerce_decimalInt hint

end Value

/-- The floating-point number of an `int64` denotes what it was rounded to. -/
theorem value_ofRat_of_isInt64 {m : Int} (hm : IsInt64 m) :
    Float64.value (Float64.ofRat m) = some (Float64.round64 m) := by
  have habs : |m| ≤ 2 ^ 63 := by
    rw [abs_le]
    exact ⟨hm.1, hm.2.le⟩
  have hlog := Float64.log_intCast_le habs
  have hnonneg := Float64.log_intCast_nonneg m
  exact Float64.value_ofRat (by omega) (by omega)

/-- An integer of the parameters is bound as the number it is rounded to. -/
theorem denotes_reread_iff {m n : Int} (hm : IsInt64 m) :
    Denotes (reread (.int m)) n ↔ Float64.round64 m = n := by
  have hvalue : Denotes (reread (.int m)) n ↔ Float64.value (Float64.ofRat m) = some (n : ℚ) := Iff.rfl
  rw [hvalue, value_ofRat_of_isInt64 hm, Option.some_inj]

/-! ## The arguments of the query -/

theorem getElem?_filterMap {α : Type*} {ps : Table α} {names : List Text}
    (h : ∀ name ∈ names, ps name ≠ none) (k : ℕ) :
    (names.filterMap ps)[k]? = names[k]?.bind ps := by
  induction names generalizing k with
  | nil => simp
  | cons name rest ih =>
      obtain ⟨v, hv⟩ := Option.ne_none_iff_exists'.mp (h name List.mem_cons_self)
      rw [List.filterMap_cons_some hv]
      cases k with
      | zero => simp [hv]
      | succ k => exact ih (fun x hx => h x (List.mem_cons_of_mem name hx)) k

section Request

variable {lib : Library} {params : List APIParameter} {i : Inputs} {p : APIParameter}
  {template : Text} {ts : List Lexeme} {ph : Placeholder}

/-- Every parameter of the template has a value at the connector. -/
theorem Requests.received_ne_none {names : List Text} (h : Requests lib params i p names)
    {out : Table Value} (hout : resolveParams lib params i = .ok out) :
    ∀ name ∈ names, received out name ≠ none := by
  intro name hname
  obtain ⟨q, hq, rfl⟩ := List.mem_map.mp (h.bound name hname)
  obtain ⟨v, -, hv⟩ := resolveParams_declared lib h.distinct hout hq
  simp [received, hv]

/-- The query of a request whose parameters are resolved. -/
theorem Requests.bind_received (hts : Lexes (lexeme plainForms true) template ts)
    (h : Requests lib params i p (paramNames ts)) {out : Table Value}
    (hout : resolveParams lib params i = .ok out) :
    Connectors.bind template (received out) ph =
      some (.ok (sqlText ph 0 ts, (paramNames ts).filterMap (received out))) := by
  rw [bind_eq _ _ hts, bindingOf, firstMissing_eq_none_iff.mpr (h.received_ne_none hout)]

/-- The integer is bound as itself exactly if the value of the parameter is an
integer that rounds to it. -/
theorem Requests.arrives_iff (hts : Lexes (lexeme plainForms true) template ts)
    (h : Requests lib params i p (paramNames ts)) {n : Int} :
    Arrives lib params i p template (paramNames ts) ph n ↔
      ∃ v, resolveParam lib p i = .ok v ∧ Denotes (reread v) n := by
  -- the argument of an occurrence of the parameter is its value, read again
  have hargs : ∀ out v, resolveParams lib params i = .ok out → out p.name = some v →
      ∀ k : ℕ, (paramNames ts)[k]? = some p.name →
        ((paramNames ts).filterMap (received out))[k]? = some (reread v) := by
    intro out v hout hv k hk
    rw [getElem?_filterMap (h.received_ne_none hout), hk]
    simp [received, hv]
  constructor
  · rintro ⟨out, sql, args, hout, hbind, hall⟩
    obtain ⟨v, hresolve, hv⟩ := resolveParams_declared lib h.distinct hout h.declared
    obtain ⟨k, hk⟩ := List.mem_iff_getElem?.mp h.used
    obtain ⟨w, hw, hdenotes⟩ := hall k hk
    rw [h.bind_received hts hout] at hbind
    cases hbind
    rw [hargs out v hout hv k hk] at hw
    cases hw
    exact ⟨v, hresolve, hdenotes⟩
  · rintro ⟨v, hresolve, hdenotes⟩
    have hall : ∀ q ∈ params, ∃ v, resolveParam lib q i = .ok v := by
      intro q hq
      by_cases hqp : q = p
      · exact ⟨v, hqp ▸ hresolve⟩
      · exact h.others q hq hqp
    obtain ⟨out, hout⟩ := resolveParams_succeeds lib hall
    obtain ⟨v', hresolve', hv⟩ := resolveParams_declared lib h.distinct hout h.declared
    rw [hresolve] at hresolve'
    cases hresolve'
    exact ⟨out, _, _, hout, h.bind_received hts hout, fun k hk =>
      ⟨reread v, hargs out v hout hv k hk, hdenotes⟩⟩

/-- An integer of 64 bits that a client sends for a parameter of type `int` is bound
as itself exactly if it has at most 53 significant bits. -/
theorem integer_arrives_iff (hprints : PrintsPlain lib)
    (hts : Lexes (lexeme plainForms true) template ts)
    (h : Requests lib params i p (paramNames ts)) (hint : p.paramType = .int) {n : Int}
    (hn : IsInt64 n) (hsends : Sends p i n) :
    Arrives lib params i p template (paramNames ts) ph n ↔ Float64.Exact n := by
  obtain ⟨m, hsupplied, hor⟩ := supplied_of_sends hprints hn hsends
  rw [h.arrives_iff hts]
  simp only [resolveParam_integer hint hsupplied h.checked]
  constructor
  · rintro ⟨v, ⟨hm, rfl⟩, hdenotes⟩
    -- whatever is bound is exact, however often it was rounded
    rw [denotes_reread_iff hm] at hdenotes
    obtain ⟨r, hr, hexact⟩ := Float64.exists_exact_round64 m
    rw [hr, Int.cast_inj] at hdenotes
    exact hdenotes ▸ hexact
  · intro hexact
    have hround := (Float64.round64_eq_iff n).mpr hexact
    have hmn : m = n := by
      rcases hor with rfl | hm
      · rfl
      · rw [hround, Int.cast_inj] at hm
        exact hm.symm
    subst hmn
    exact ⟨.int m, ⟨hn, rfl⟩, (denotes_reread_iff hn).mpr hround⟩

end Request

/-! ## Ids -/

/-- A parameter for an id, and a request that sends one. -/
def rowID : APIParameter := { name := "id".toList, paramType := .int }

@[inherit_doc rowID]
def sending (n : Int) : Inputs where
  pathParams _ := none
  query := { entries := [("id".toList, [Strings.decimalInt n])], nodup := List.nodup_singleton _ }
  body _ := none

def selectID : Text := "SELECT :id".toList

/-- A library that prints integral numbers in plain decimal. -/
def plainLibrary : Library where
  compile _ := none
  parseFloat _ := none
  isUUID _ := false
  formatFloat bits := (Float64.value bits).elim [] fun q => Strings.decimalInt q.num

theorem plainLibrary_prints : PrintsPlain plainLibrary := by
  intro n r hn hr
  have hvalue := value_ofRat_of_isInt64 hn
  rw [hr] at hvalue
  simp [plainLibrary, hvalue]

def selectLexemes : List Lexeme := "SELECT ".toList.map .rune ++ [.param "id".toList]

theorem lexes_selectID : Lexes (lexeme plainForms true) selectID selectLexemes :=
  .read rfl (.read rfl (.read rfl (.read rfl (.read rfl (.read rfl (.read rfl (.read rfl .done)))))))

theorem requests_rowID (n : Int) :
    Requests plainLibrary [rowID] (sending n) rowID (paramNames selectLexemes) where
  distinct := List.nodup_singleton _
  declared := List.mem_singleton_self _
  checked _ _ := ⟨rfl, rfl⟩
  others _ hq hne := absurd (List.mem_singleton.mp hq) hne
  bound _ hname := hname
  used := List.mem_singleton_self _

/-- The query for `2 ^ 53 + 1` is made for the id before it. -/
theorem neighbour_is_bound :
    PrintsPlain plainLibrary ∧ IsInt64 9007199254740993 ∧
      Sends rowID (sending 9007199254740993) 9007199254740993 ∧
      ((resolveParams plainLibrary [rowID] (sending 9007199254740993)).toOption.bind fun out =>
          Connectors.bind selectID (received out) placeholderDollar) =
        some (.ok ("SELECT $1".toList, [.number 0x4340000000000000])) ∧
      Denotes (.number 0x4340000000000000) 9007199254740992 ∧
      ¬Arrives plainLibrary [rowID] (sending 9007199254740993) rowID selectID
        (paramNames selectLexemes) placeholderDollar 9007199254740993 := by
  refine ⟨plainLibrary_prints, by decide, rfl, by decide +kernel, ?_, ?_⟩
  · have hvalue : Float64.value 0x4340000000000000 = some 9007199254740992 := by decide +kernel
    exact hvalue
  · rw [(requests_rowID _).arrives_iff lexes_selectID]
    rintro ⟨v, hresolve, hdenotes⟩
    have hsupplied : supplied plainLibrary rowID (sending 9007199254740993) =
        some (Strings.decimalInt 9007199254740993) := by decide +kernel
    obtain ⟨hm, rfl⟩ := (resolveParam_integer rfl hsupplied fun _ _ => ⟨rfl, rfl⟩).mp hresolve
    rw [denotes_reread_iff hm] at hdenotes
    exact absurd hdenotes (by decide +kernel)

/-- The id before it is bound as itself. -/
theorem power_is_bound :
    Sends rowID (sending 9007199254740992) 9007199254740992 ∧
      Arrives plainLibrary [rowID] (sending 9007199254740992) rowID selectID
        (paramNames selectLexemes) placeholderDollar 9007199254740992 :=
  ⟨rfl, (integer_arrives_iff plainLibrary_prints lexes_selectID (requests_rowID _) rfl (by decide)
    rfl).mpr ⟨1, 53, by decide, by decide⟩⟩

end DDAG.Gateway
