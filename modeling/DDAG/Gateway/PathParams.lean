import DDAG.Gateway.Router
import DDAG.Lib.Rows

/-!
# The parameters of a path

What `Match` finds, and whether the parameters it returns give the path back.

A path is matched by its parts, except that the part `{}` is read as the empty literal.  The
parameters of a route are a map that its parts fill from left to right, so of two parts with one name
the last one counts (`table_eq_last`).

`match_faithful_iff` says for which requests this does no harm: those that fit no route or fit one
without the part `{}`, and are given one without it in which parts with one name stand for one
segment.  `repeated_name_lost` is a request of another kind.
-/

namespace DDAG.Gateway

open Models

/-! ## The parts of a path -/

/-- The part `{name}`. -/
def placeholder (name : Text) : Text := '{' :: name ++ ['}']

/-- A part stands for the segment of a request: any if it is a placeholder with a name, or
itself. -/
def PartFits (part s : Text) : Prop := (∃ name, name ≠ [] ∧ part = placeholder name) ∨ part = s

theorem placeholder_braced (name : Text) :
    2 ≤ (placeholder name).length ∧ (placeholder name).head? = some '{' ∧
      (placeholder name).getLast? = some '}' :=
  ⟨by simp [placeholder], rfl, List.getLast?_concat⟩

theorem parseSegment_placeholder (name : Text) : parseSegment (placeholder name) = { param := name } := by
  rw [parseSegment, if_pos (placeholder_braced name)]
  simp [placeholder]

/-- A part is in braces, with or without a name, or a literal. -/
theorem parseSegment_cases (part : Text) :
    (∃ name, part = placeholder name) ∨
      ((∀ name, part ≠ placeholder name) ∧ parseSegment part = { literal := part }) := by
  by_cases hbraces : 2 ≤ part.length ∧ part.head? = some '{' ∧ part.getLast? = some '}'
  · obtain ⟨hlen, hhead, hlast⟩ := hbraces
    obtain ⟨rest, rfl⟩ : ∃ rest, part = '{' :: rest := List.head?_eq_some_iff.mp hhead
    have hne : rest ≠ [] := by
      rintro rfl
      simp at hlen
    obtain ⟨name, rfl⟩ : ∃ name, rest = name ++ ['}'] := by
      rw [List.getLast?_cons_of_ne_nil hne] at hlast
      exact List.getLast?_eq_some_iff.mp hlast
    exact .inl ⟨name, rfl⟩
  · refine .inr ⟨?_, if_neg hbraces⟩
    rintro name rfl
    exact hbraces (placeholder_braced name)

/-- A part that is not empty braces is a placeholder with a name or a literal. -/
theorem parseSegment_plain {part : Text} (hplain : part ≠ placeholder []) :
    (∃ name, name ≠ [] ∧ part = placeholder name ∧ parseSegment part = { param := name }) ∨
      ((∀ name, part ≠ placeholder name) ∧ parseSegment part = { literal := part }) := by
  rcases parseSegment_cases part with ⟨name, rfl⟩ | hliteral
  · have hname : name ≠ [] := by
      rintro rfl
      exact hplain rfl
    exact .inl ⟨name, hname, rfl, parseSegment_placeholder name⟩
  · exact .inr hliteral

theorem eq_placeholder {part : Text} (hparam : (parseSegment part).isParam = true) :
    part = placeholder (parseSegment part).param := by
  rcases parseSegment_cases part with ⟨name, rfl⟩ | ⟨-, heq⟩
  · rw [parseSegment_placeholder]
  · rw [heq] at hparam
    cases hparam

/-- Apart from empty braces, a part is matched as it stands. -/
theorem takes_iff_partFits {part : Text} (hplain : part ≠ placeholder []) (s : Text) :
    (parseSegment part).Takes s ↔ PartFits part s := by
  rcases parseSegment_plain hplain with ⟨name, hname, rfl, heq⟩ | ⟨hnone, heq⟩
  · have hparam : (parseSegment (placeholder name)).isParam = true := by
      rw [heq]
      exact decide_eq_true hname
    exact ⟨fun _ => .inl ⟨name, hname, rfl⟩, fun _ h => absurd (hparam.symm.trans h) (by decide)⟩
  · rw [heq]
    constructor
    · exact fun htakes => .inr (htakes rfl)
    · rintro (⟨name, -, hname⟩ | hsame) _
      · exact absurd hname (hnone name)
      · exact hsame

/-! ## The table of the parameters -/

theorem bindSegment_apply (name : Text) (params : Table Text) (p : Segment × Text) :
    bindSegment params p name =
      if p.1.isParam && p.1.param = name then some p.2 else params name := by
  unfold bindSegment
  cases hparam : p.1.isParam with
  | false => simp
  | true =>
      by_cases hname : p.1.param = name
      · simp [hname]
      · simp [hname, Function.update_of_ne (Ne.symm hname)]

/-- A name has the value of the last segment with it. -/
theorem table_eq_last (pairs : List (Segment × Text)) (name : Text) :
    pairs.foldl bindSegment (fun _ => none) name =
      (pairs.reverse.find? fun p => p.1.isParam && p.1.param = name).map Prod.snd := by
  have hlast := Rows.foldl_last (fun m : Table Text => m name) (bindSegment_apply name) pairs fun _ => none
  rw [hlast, Option.or_none]

/-- Every segment with a name has its own value in the table, exactly if segments with one name
have one value. -/
theorem table_keeps_iff (pairs : List (Segment × Text)) :
    (∀ p ∈ pairs, p.1.isParam = true → pairs.foldl bindSegment (fun _ => none) p.1.param = some p.2) ↔
      ∀ p ∈ pairs, ∀ q ∈ pairs, p.1.isParam = true → q.1.isParam = true → p.1.param = q.1.param →
        p.2 = q.2 := by
  constructor
  · intro hkeeps p hp q hq hparam hparam' hname
    have hvalue := hkeeps p hp hparam
    rw [hname, hkeeps q hq hparam'] at hvalue
    exact (Option.some.inj hvalue).symm
  · intro hagree p hp hparam
    rw [table_eq_last]
    cases hfind : pairs.reverse.find? fun q => q.1.isParam && q.1.param = p.1.param with
    | none =>
        have hmiss := List.find?_eq_none.mp hfind p (List.mem_reverse.mpr hp)
        simp [hparam] at hmiss
    | some q =>
        have hq : q ∈ pairs := List.mem_reverse.mp (List.mem_of_find?_eq_some hfind)
        have hsame := List.find?_some hfind
        simp only [Bool.and_eq_true, decide_eq_true_eq] at hsame
        have hvalue : q.2 = p.2 := hagree q hq p hp hsame.1 hparam hsame.2
        rw [Option.map_some, hvalue]

/-! ## Giving the path back -/

/-- A part with the value of its parameter in its place. -/
def fill (params : Table Text) (part : Text) : Option Text :=
  if (parseSegment part).isParam then params (parseSegment part).param else some part

/-- The route has the method of the request, and its parts stand for the segments. -/
def FitsRequest (fold : Char → Char) (method : Text) (reqSegs : List Text) (api : PublishedAPI) : Prop :=
  Strings.equalFold fold api.method method = true ∧ List.Forall₂ PartFits (splitPath api.path) reqSegs

/-- `Match` succeeds exactly if a route of the method has parts that stand for the segments of the
request, and the parameters it returns give these segments back. -/
structure Faithful (fold : Char → Char) (apis : List PublishedAPI) (method path : Text) : Prop where
  found_iff : (matchPath fold (Router.build apis) method path).isSome = true ↔
    ∃ api ∈ apis, FitsRequest fold method (splitPath path) api
  restored : ∀ r params, matchPath fold (Router.build apis) method path = some (r, params) →
    (splitPath r.api.path).map (fill params) = (splitPath path).map some

/-- Parts that are one placeholder stand for one segment. -/
def RepeatsAgree (parts reqSegs : List Text) : Prop :=
  ∀ p ∈ parts.zip reqSegs, ∀ q ∈ parts.zip reqSegs,
    (parseSegment p.1).isParam = true → p.1 = q.1 → p.2 = q.2

section Restore

variable {fold : Char → Char} {method : Text} {reqSegs : List Text}

/-- Without empty braces, a route matches if its parts fit. -/
theorem matches_iff_fits {api : PublishedAPI} (hplain : placeholder [] ∉ splitPath api.path) :
    (routeOf api).Matches fold method reqSegs ↔ FitsRequest fold method reqSegs api := by
  have hparts : List.Forall₂ Segment.Takes (parsePath api.path) reqSegs ↔
      List.Forall₂ PartFits (splitPath api.path) reqSegs := by
    rw [parsePath, List.forall₂_map_left_iff, List.forall₂_iff_zip, List.forall₂_iff_zip]
    refine and_congr_right fun _ => forall_congr' fun part => forall_congr' fun s => ?_
    refine imp_congr_right fun hmem => takes_iff_partFits ?_ s
    rintro rfl
    exact hplain (List.of_mem_zip hmem).1
  constructor
  · exact fun h => ⟨h.method, hparts.mp h.segments⟩
  · exact fun h => ⟨h.1, hparts.mpr h.2⟩

/-- A part that takes its segment gives it back, if it has it in the table where it needs one. -/
theorem fill_eq_some_iff {part s : Text} (hplain : part ≠ placeholder [])
    (htakes : (parseSegment part).Takes s) (params : Table Text) :
    fill params part = some s ↔
      ((parseSegment part).isParam = true → params (parseSegment part).param = some s) := by
  unfold fill
  split
  next hparam => exact ⟨fun h _ => h, fun h => h hparam⟩
  next hparam =>
    have hsame : part = s := by
      rcases (takes_iff_partFits hplain s).mp htakes with ⟨name, hname, rfl⟩ | hsame
      · rw [parseSegment_placeholder] at hparam
        exact absurd (decide_eq_true hname) hparam
      · exact hsame
    exact ⟨fun _ h => absurd h hparam, fun _ => by rw [hsame]⟩

/-- Parts that take their segments give them back exactly if those with a name have theirs in the
table. -/
theorem filled_iff {parts : List Text} (hplain : placeholder [] ∉ parts)
    (htakes : List.Forall₂ (fun part s => (parseSegment part).Takes s) parts reqSegs)
    (params : Table Text) :
    parts.map (fill params) = reqSegs.map some ↔
      ∀ p ∈ parts.zip reqSegs, (parseSegment p.1).isParam = true →
        params (parseSegment p.1).param = some p.2 := by
  obtain ⟨hlen, htakes⟩ := List.forall₂_iff_zip.mp htakes
  have hpart : ∀ {part s}, (part, s) ∈ parts.zip reqSegs →
      (fill params part = some s ↔
        ((parseSegment part).isParam = true → params (parseSegment part).param = some s)) :=
    fun hmem => fill_eq_some_iff (fun heq => hplain (heq ▸ (List.of_mem_zip hmem).1)) (htakes hmem) params
  rw [← List.forall₂_eq_eq_eq, List.forall₂_map_left_iff, List.forall₂_map_right_iff,
    List.forall₂_iff_zip]
  constructor
  · exact fun hall p hp => (hpart hp).mp (hall.2 hp)
  · exact fun hall => ⟨hlen, fun {part s} hmem => (hpart hmem).mpr (hall (part, s) hmem)⟩

/-- Empty braces take an empty segment, and do not give it back. -/
theorem not_filled_of_braces {parts : List Text} (hbraces : placeholder [] ∈ parts)
    (htakes : List.Forall₂ (fun part s => (parseSegment part).Takes s) parts reqSegs)
    (params : Table Text) : parts.map (fill params) ≠ reqSegs.map some := by
  intro hfilled
  rw [← List.forall₂_eq_eq_eq, List.forall₂_map_left_iff, List.forall₂_map_right_iff,
    List.forall₂_iff_zip] at hfilled
  obtain ⟨hlen, htakes⟩ := List.forall₂_iff_zip.mp htakes
  obtain ⟨⟨part, s⟩, hmem, hpart⟩ : ∃ p ∈ parts.zip reqSegs, p.1 = placeholder [] := by
    rw [← List.map_fst_zip hlen.le] at hbraces
    exact List.mem_map.mp hbraces
  cases hpart
  have hempty : [] = s := htakes hmem rfl
  have hsame : some (placeholder []) = some s := hfilled.2 hmem
  rw [← hempty] at hsame
  cases hsame

/-- The parameters of a route that matches give the segments back exactly if it has no empty braces
and its repeated names agree. -/
theorem restored_iff {api : PublishedAPI} (h : (routeOf api).Matches fold method reqSegs) :
    (splitPath api.path).map (fill ((routeOf api).params reqSegs)) = reqSegs.map some ↔
      placeholder [] ∉ splitPath api.path ∧ RepeatsAgree (splitPath api.path) reqSegs := by
  have htakes := List.forall₂_map_left_iff.mp h.segments
  by_cases hbraces : placeholder [] ∈ splitPath api.path
  · exact iff_of_false (not_filled_of_braces hbraces htakes _) fun hboth => hboth.1 hbraces
  have hpairs : (routeOf api).segments.zip reqSegs =
      ((splitPath api.path).zip reqSegs).map (Prod.map parseSegment id) := List.zip_map_left
  have hkeeps := table_keeps_iff ((routeOf api).segments.zip reqSegs)
  rw [hpairs] at hkeeps
  simp only [List.forall_mem_map, Prod.map_fst, Prod.map_snd, id] at hkeeps
  rw [filled_iff hbraces htakes, Route.params, hpairs, hkeeps, and_iff_right hbraces]
  -- one placeholder is one name
  constructor
  · intro hagree p hp q hq hparam hsame
    exact hagree p hp q hq hparam (hsame ▸ hparam) (by rw [hsame])
  · intro hagree p hp q hq hparam hparam' hname
    refine hagree p hp q hq hparam ?_
    rw [eq_placeholder hparam, eq_placeholder hparam', hname]

variable {apis : List PublishedAPI}

/-- A request is given a route that matches it. -/
theorem matches_of_chosen {r : Route} (h : chosen fold method reqSegs (Router.build apis) = some r) :
    ∃ api ∈ apis, r = routeOf api ∧ (routeOf api).Matches fold method reqSegs := by
  have hr : r ∈ Router.build apis ∧ r.Matches fold method reqSegs := by
    rcases Option.or_eq_some_iff.mp h with hlit | ⟨-, hfirst⟩
    · have hfound := List.find?_some hlit
      exact ⟨List.mem_of_find?_eq_some hlit, (of_decide_eq_true hfound).1⟩
    · have hfound := List.find?_some hfirst
      exact ⟨List.mem_of_find?_eq_some hfirst, of_decide_eq_true hfound⟩
  obtain ⟨api, hapi, rfl⟩ := List.mem_map.mp hr.1
  exact ⟨api, hapi, rfl, hr.2⟩

theorem chosen_of_matches {api : PublishedAPI} (hapi : api ∈ apis) (h : (routeOf api).Matches fold method reqSegs) :
    (chosen fold method reqSegs (Router.build apis)).isSome = true := by
  have hfirst : (firstRoute fold method reqSegs (Router.build apis)).isSome = true :=
    List.find?_isSome.mpr ⟨routeOf api, List.mem_map_of_mem hapi, decide_eq_true h⟩
  rw [chosen, Option.isSome_or, hfirst, Bool.or_true]

/-- The segments of a request are given back exactly if the route that it is given has no empty
braces and has repeated names that agree. -/
theorem restored_match_iff {path : Text} :
    (∀ r params, matchPath fold (Router.build apis) method path = some (r, params) →
      (splitPath r.api.path).map (fill params) = (splitPath path).map some) ↔
    ∀ r, chosen fold method (splitPath path) (Router.build apis) = some r →
      placeholder [] ∉ splitPath r.api.path ∧ RepeatsAgree (splitPath r.api.path) (splitPath path) := by
  rw [matchPath_eq]
  constructor
  · intro h r hr
    obtain ⟨api, -, rfl, hmatches⟩ := matches_of_chosen hr
    exact (restored_iff hmatches).mp (h _ _ (by rw [hr]; rfl))
  · intro h r params hmatch
    obtain ⟨r, hr, heq⟩ := Option.map_eq_some_iff.mp hmatch
    cases heq
    obtain ⟨api, -, rfl, hmatches⟩ := matches_of_chosen hr
    exact (restored_iff hmatches).mpr (h _ hr)

end Restore

/-- `Match` is faithful to a request if and only if the request fits a route without empty braces
where it fits one with them, and the route that it is given has none and has repeated names that agree. -/
theorem match_faithful_iff (fold : Char → Char) (apis : List PublishedAPI) (method path : Text) :
    Faithful fold apis method path ↔
      (∀ api ∈ apis, FitsRequest fold method (splitPath path) api → placeholder [] ∈ splitPath api.path →
        ∃ other ∈ apis, FitsRequest fold method (splitPath path) other ∧ placeholder [] ∉ splitPath other.path) ∧
      ∀ r, chosen fold method (splitPath path) (Router.build apis) = some r →
        placeholder [] ∉ splitPath r.api.path ∧ RepeatsAgree (splitPath r.api.path) (splitPath path) := by
  have hisSome : (matchPath fold (Router.build apis) method path).isSome =
      (chosen fold method (splitPath path) (Router.build apis)).isSome := by
    rw [matchPath_eq, Option.isSome_map]
  constructor
  · intro h
    have hrestored := restored_match_iff.mp h.restored
    refine ⟨fun api hapi hfits _ => ?_, hrestored⟩
    have hfound := h.found_iff.mpr ⟨api, hapi, hfits⟩
    rw [hisSome] at hfound
    obtain ⟨r, hr⟩ := Option.isSome_iff_exists.mp hfound
    obtain ⟨other, hother, rfl, hmatches⟩ := matches_of_chosen hr
    have hplain := (hrestored _ hr).1
    exact ⟨other, hother, (matches_iff_fits hplain).mp hmatches, hplain⟩
  · rintro ⟨hbraces, hrestored⟩
    refine ⟨?_, restored_match_iff.mpr hrestored⟩
    rw [hisSome]
    constructor
    · intro hfound
      obtain ⟨r, hr⟩ := Option.isSome_iff_exists.mp hfound
      obtain ⟨api, hapi, rfl, hmatches⟩ := matches_of_chosen hr
      exact ⟨api, hapi, (matches_iff_fits (hrestored _ hr).1).mp hmatches⟩
    · rintro ⟨api, hapi, hfits⟩
      by_cases hplain : placeholder [] ∈ splitPath api.path
      · obtain ⟨other, hother, hfits', hplain'⟩ := hbraces api hapi hfits hplain
        exact chosen_of_matches hother ((matches_iff_fits hplain').mpr hfits')
      · exact chosen_of_matches hapi ((matches_iff_fits hplain).mpr hfits)

/-- Empty braces in another route do no harm. -/
theorem distinct_names_restored :
    let apis := [getAt 1 "/users/\x7b\x7d/posts", getAt 2 "/users/\x7bid\x7d/posts/\x7bpost\x7d"]
    (matchPath Strings.foldRune (Router.build apis) "get".toList "/users/7/posts/9/".toList).isSome = true ∧
      Faithful Strings.foldRune apis "get".toList "/users/7/posts/9/".toList := by
  intro apis
  refine ⟨by decide +kernel, (match_faithful_iff _ _ _ _).mpr ⟨?_, fun r hr => ?_⟩⟩
  · -- a path of three parts does not fit a request of four
    refine List.forall_mem_cons.mpr ⟨fun hfits => ?_, List.forall_mem_singleton.mpr fun _ hbraces => ?_⟩
    · exact absurd hfits.2.length_eq (by decide +kernel)
    · exact absurd hbraces (by decide +kernel)
  · have hchosen : chosen Strings.foldRune "get".toList (splitPath "/users/7/posts/9/".toList) (Router.build apis) =
        some (routeOf (getAt 2 "/users/\x7bid\x7d/posts/\x7bpost\x7d")) := by decide +kernel
    cases hr.symm.trans hchosen
    unfold RepeatsAgree
    decide +kernel

/-- Of two segments with one name the first one is lost. -/
theorem repeated_name_lost :
    let apis := [getAt 1 "/users/\x7bid\x7d/posts/\x7bid\x7d"]
    ((matchPath Strings.foldRune (Router.build apis) "GET".toList "/users/7/posts/9".toList).map
        fun m => (splitPath m.1.api.path).map (fill m.2)) =
        some (["users".toList, "9".toList, "posts".toList, "9".toList].map some) ∧
      ¬ Faithful Strings.foldRune apis "GET".toList "/users/7/posts/9".toList := by
  intro apis
  have hfilled : ((matchPath Strings.foldRune (Router.build apis) "GET".toList
      "/users/7/posts/9".toList).map fun m => (splitPath m.1.api.path).map (fill m.2)) =
        some (["users".toList, "9".toList, "posts".toList, "9".toList].map some) := by
    decide +kernel
  refine ⟨hfilled, fun h => ?_⟩
  obtain ⟨⟨r, params⟩, hmatch, hr⟩ := Option.map_eq_some_iff.mp hfilled
  rw [h.restored r params hmatch] at hr
  exact absurd hr (by decide +kernel)

end DDAG.Gateway
