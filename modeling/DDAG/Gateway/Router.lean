import DDAG.Models
import Mathlib.Data.List.Forall2

/-!
# The route table

`Router` of `internal/gateway/router.go`: published APIs are matched to requests by their
method and by the segments of their paths, which are literals or parameters.  `Match` goes
through the table once.  A route without parameters that matches is taken at once, and of the
others the first one that matches.

`matchPath_eq` says which route this is.  `literal_segments_first` says for which requests it is a
most specific one: those with a route without parameters, and those whose first route in the table
has no more specific one behind it.  `general_route_taken` is a request of another kind.
-/

namespace DDAG.Gateway

open Models

/-! ## Routes -/

structure Segment where
  literal : Text := []
  /-- Not empty when the segment is a `{param}`. -/
  param : Text := []
deriving DecidableEq

def Segment.isParam (seg : Segment) : Bool := seg.param ≠ []

structure PublishedAPI extends APIDefinition where
  id : Id
deriving DecidableEq

structure Route where
  api : PublishedAPI
  segments : List Segment
deriving DecidableEq

def Route.hasParam (rt : Route) : Bool := rt.segments.any Segment.isParam

def splitPath (path : Text) : List Text :=
  let path := Strings.trim (· = '/') path
  if path = [] then [] else Strings.split path '/'

/-- One part of a path.  The part `{}` is the empty literal. -/
def parseSegment (p : Text) : Segment :=
  if 2 ≤ p.length ∧ p.head? = some '{' ∧ p.getLast? = some '}' then { param := p.tail.dropLast }
  else { literal := p }

def parsePath (path : Text) : List Segment := (splitPath path).map parseSegment

def routeOf (api : PublishedAPI) : Route := { api := api, segments := parsePath api.path }

/-- `Build`. -/
def Router.build (apis : List PublishedAPI) : List Route := apis.map routeOf

/-! ## Matching -/

/-- The loop over the segments of a route, with the parameters so far and whether there were
any. -/
def matchSegments : List Segment → List Text → Table Text → Bool → Option (Table Text × Bool)
  | seg :: segs, s :: reqSegs, params, hasParam =>
      if seg.isParam then
        matchSegments segs reqSegs (Function.update params seg.param (some s)) true
      else if seg.literal ≠ s then none
      else matchSegments segs reqSegs params hasParam
  | _, _, params, hasParam => some (params, hasParam)

section Match

variable (fold : Char → Char)

/-- One route of the loop of `Match`: its parameters, and whether it has any. -/
def matchRoute (method : Text) (reqSegs : List Text) (rt : Route) : Option (Table Text × Bool) :=
  if !Strings.equalFold fold rt.api.method method then none
  else if rt.segments.length ≠ reqSegs.length then none
  else matchSegments rt.segments reqSegs (fun _ => none) false

/-- The loop of `Match`, with the first match with parameters so far. -/
def matchFrom (method : Text) (reqSegs : List Text) :
    List Route → Option (Route × Table Text) → Option (Route × Table Text)
  | [], paramMatch => paramMatch
  | rt :: routes, paramMatch =>
      match matchRoute fold method reqSegs rt with
      | none => matchFrom method reqSegs routes paramMatch
      | some (params, false) => some (rt, params)
      | some (params, true) => matchFrom method reqSegs routes (paramMatch.or (some (rt, params)))

/-- `Match`. -/
def matchPath (routes : List Route) (method path : Text) : Option (Route × Table Text) :=
  matchFrom fold method (splitPath path) routes none

end Match

/-! ## What is matched -/

/-- A parameter takes any segment of a request, a literal takes itself. -/
def Segment.Takes (seg : Segment) (s : Text) : Prop := seg.isParam = false → seg.literal = s

structure Route.Matches (fold : Char → Char) (method : Text) (reqSegs : List Text) (rt : Route) : Prop where
  method : Strings.equalFold fold rt.api.method method = true
  segments : List.Forall₂ Segment.Takes rt.segments reqSegs

/-- One segment of a route that matches, in the table of the parameters. -/
def bindSegment (params : Table Text) (p : Segment × Text) : Table Text :=
  if p.1.isParam then Function.update params p.1.param (some p.2) else params

/-- The segments match exactly if each takes its own, and fill the table from left to right. -/
theorem matchSegments_spec {segs : List Segment} {reqSegs : List Text}
    (hlen : segs.length = reqSegs.length) (params : Table Text) (hasParam : Bool) :
    (List.Forall₂ Segment.Takes segs reqSegs ∧ matchSegments segs reqSegs params hasParam =
      some ((segs.zip reqSegs).foldl bindSegment params, hasParam || segs.any Segment.isParam)) ∨
    (¬ List.Forall₂ Segment.Takes segs reqSegs ∧ matchSegments segs reqSegs params hasParam = none) := by
  induction segs generalizing reqSegs params hasParam with
  | nil =>
      cases reqSegs with
      | nil => exact .inl ⟨.nil, by simp [matchSegments]⟩
      | cons s ss => cases hlen
  | cons seg segs ih =>
      cases reqSegs with
      | nil => cases hlen
      | cons s ss =>
          have hlen' : segs.length = ss.length := Nat.succ.inj hlen
          simp only [matchSegments, List.forall₂_cons, List.any_cons, List.zip_cons_cons, List.foldl_cons,
            bindSegment]
          cases hparam : seg.isParam with
          | true =>
              have htakes : seg.Takes s := fun h => absurd (hparam.symm.trans h) (by decide)
              rcases ih hlen' (Function.update params seg.param (some s)) true with ⟨hall, heq⟩ | ⟨hnot, heq⟩
              · exact .inl ⟨⟨htakes, hall⟩, by simpa using heq⟩
              · exact .inr ⟨fun h => hnot h.2, heq⟩
          | false =>
              by_cases hlit : seg.literal = s
              · rcases ih hlen' params hasParam with ⟨hall, heq⟩ | ⟨hnot, heq⟩
                · exact .inl ⟨⟨fun _ => hlit, hall⟩, by simpa [hlit] using heq⟩
                · exact .inr ⟨fun h => hnot h.2, by simpa [hlit] using heq⟩
              · exact .inr ⟨fun h => hlit (h.1 hparam), by simp [hlit]⟩

/-- The parameters of a request that the route is for. -/
def Route.params (reqSegs : List Text) (rt : Route) : Table Text :=
  (rt.segments.zip reqSegs).foldl bindSegment fun _ => none

theorem matchRoute_spec (fold : Char → Char) (method : Text) (reqSegs : List Text) (rt : Route) :
    (rt.Matches fold method reqSegs ∧
      matchRoute fold method reqSegs rt = some (rt.params reqSegs, rt.hasParam)) ∨
    (¬ rt.Matches fold method reqSegs ∧ matchRoute fold method reqSegs rt = none) := by
  unfold matchRoute
  cases hm : Strings.equalFold fold rt.api.method method with
  | false => exact .inr ⟨fun h => absurd (hm.symm.trans h.method) (by decide), rfl⟩
  | true =>
      by_cases hlen : rt.segments.length = reqSegs.length
      · rcases matchSegments_spec hlen (fun _ => none) false with ⟨hall, heq⟩ | ⟨hnot, heq⟩
        · exact .inl ⟨⟨hm, hall⟩, by simpa [hlen, Route.hasParam, Route.params] using heq⟩
        · exact .inr ⟨fun h => hnot h.segments, by simpa [hlen] using heq⟩
      · exact .inr ⟨fun h => hlen h.segments.length_eq, by simp [hlen]⟩

instance (fold : Char → Char) (method : Text) (reqSegs : List Text) (rt : Route) :
    Decidable (rt.Matches fold method reqSegs) :=
  decidable_of_iff ((matchRoute fold method reqSegs rt).isSome = true) <| by
    rcases matchRoute_spec fold method reqSegs rt with ⟨hmatch, heq⟩ | ⟨hnot, heq⟩
    · simp [heq, hmatch]
    · simp [heq, hnot]

section Spec

variable (fold : Char → Char) (method : Text) (reqSegs : List Text) (routes : List Route)

def firstRoute : Option Route := routes.find? fun rt => rt.Matches fold method reqSegs

def firstLiteral : Option Route :=
  routes.find? fun rt => rt.Matches fold method reqSegs ∧ rt.hasParam = false

def withParams (rt : Route) : Route × Table Text := (rt, rt.params reqSegs)

/-- The loop ends with the first match without parameters, or else with the first match. -/
theorem matchFrom_eq (paramMatch : Option (Route × Table Text)) :
    matchFrom fold method reqSegs routes paramMatch =
      ((firstLiteral fold method reqSegs routes).map (withParams reqSegs)).or
        (paramMatch.or ((firstRoute fold method reqSegs routes).map (withParams reqSegs))) := by
  induction routes generalizing paramMatch with
  | nil => simp [matchFrom, firstLiteral, firstRoute]
  | cons rt routes ih =>
      rw [matchFrom]
      rcases matchRoute_spec fold method reqSegs rt with ⟨hmatch, heq⟩ | ⟨hnot, heq⟩
      · rw [heq]
        cases hparam : rt.hasParam with
        | false => simp [firstLiteral, hmatch, hparam, withParams]
        | true =>
            -- from here on there is a match, and the loop keeps the first one
            have hlater : firstLiteral fold method reqSegs (rt :: routes) =
                firstLiteral fold method reqSegs routes := by simp [firstLiteral, hparam]
            have hfirst : firstRoute fold method reqSegs (rt :: routes) = some rt := by
              simp [firstRoute, hmatch]
            rw [hlater, hfirst]
            refine (ih _).trans ?_
            cases paramMatch <;> simp [withParams]
      · rw [heq]
        have hlater : firstLiteral fold method reqSegs (rt :: routes) =
            firstLiteral fold method reqSegs routes := by simp [firstLiteral, hnot]
        have hfirst : firstRoute fold method reqSegs (rt :: routes) =
            firstRoute fold method reqSegs routes := by simp [firstRoute, hnot]
        rw [hlater, hfirst]
        exact ih paramMatch

/-- The route that a request is given. -/
def chosen : Option Route :=
  (firstLiteral fold method reqSegs routes).or (firstRoute fold method reqSegs routes)

theorem matchPath_eq (path : Text) :
    matchPath fold routes method path =
      (chosen fold method (splitPath path) routes).map (withParams (splitPath path)) := by
  rw [chosen, Option.map_or]
  exact matchFrom_eq fold method (splitPath path) routes none

end Spec

/-! ## Specificity -/

/-- One route has a literal wherever the other has one, and at some place where the other has
a parameter. -/
structure MoreSpecific (q r : Route) : Prop where
  keeps : ∀ p ∈ r.segments.zip q.segments, p.1.isParam = false → p.2.isParam = false
  gains : ∃ p ∈ r.segments.zip q.segments, p.1.isParam = true ∧ p.2.isParam = false

/-- No route for the request is more specific than the one that is taken. -/
def LiteralsFirst (fold : Char → Char) (routes : List Route) (method path : Text) : Prop :=
  ∀ r params, matchPath fold routes method path = some (r, params) →
    ∀ q ∈ routes, q.Matches fold method (splitPath path) → ¬ MoreSpecific q r

theorem hasParam_of_moreSpecific {q r : Route} (h : MoreSpecific q r) : r.hasParam = true := by
  obtain ⟨⟨s, t⟩, hmem, hparam, -⟩ := h.gains
  exact List.any_eq_true.mpr ⟨s, (List.of_mem_zip hmem).1, hparam⟩

/-- A request is given a route such that no other one for it is more specific, if and only if a route
without parameters is for it, or no route for it is more specific than the first one in the table. -/
theorem literal_segments_first (fold : Char → Char) (apis : List PublishedAPI) (method path : Text) :
    LiteralsFirst fold (Router.build apis) method path ↔
      (∃ q ∈ Router.build apis, q.Matches fold method (splitPath path) ∧ q.hasParam = false) ∨
      ∀ r, firstRoute fold method (splitPath path) (Router.build apis) = some r →
        ∀ q ∈ Router.build apis, q.Matches fold method (splitPath path) → ¬ MoreSpecific q r := by
  rw [LiteralsFirst, matchPath_eq, chosen]
  cases hlit : firstLiteral fold method (splitPath path) (Router.build apis) with
  | some l =>
      -- a route without parameters has nothing more specific
      have hfound := List.find?_some hlit
      obtain ⟨hl, hparam⟩ := of_decide_eq_true hfound
      refine iff_of_true (fun r params hmatch q _ _ hspec => ?_)
        (.inl ⟨l, List.mem_of_find?_eq_some hlit, hl, hparam⟩)
      cases hmatch
      exact absurd (hparam.symm.trans (hasParam_of_moreSpecific hspec)) (by decide)
  | none =>
      have hnone : ¬ ∃ q ∈ Router.build apis, q.Matches fold method (splitPath path) ∧ q.hasParam = false := by
        rintro ⟨q, hq, hboth⟩
        exact List.find?_eq_none.mp hlit q hq (decide_eq_true hboth)
      rw [or_iff_right hnone, Option.none_or]
      constructor
      · intro h r hr
        exact h r _ (by rw [hr]; rfl)
      · intro h r params hmatch
        obtain ⟨r, hr, heq⟩ := Option.map_eq_some_iff.mp hmatch
        cases heq
        exact h r hr

/-- A `GET` on a path. -/
def getAt (id : Id) (path : String) : PublishedAPI := { id := id, path := path.toList }

instance (q r : Route) : Decidable (MoreSpecific q r) :=
  decidable_of_iff
    ((∀ p ∈ r.segments.zip q.segments, p.1.isParam = false → p.2.isParam = false) ∧
      ∃ p ∈ r.segments.zip q.segments, p.1.isParam = true ∧ p.2.isParam = false)
    ⟨fun h => ⟨h.1, h.2⟩, fun h => ⟨h.keeps, h.gains⟩⟩

/-- A route with parameters only may stand first, if the more specific one is not for the request. -/
theorem only_route_taken :
    let apis := [getAt 1 "/\x7ba\x7d/\x7bb\x7d", getAt 2 "/users/\x7bb\x7d"]
    ((matchPath Strings.foldRune (Router.build apis) "get".toList "/posts/7".toList).map fun m => m.1.api.id) =
        some 1 ∧
      LiteralsFirst Strings.foldRune (Router.build apis) "get".toList "/posts/7".toList := by
  intro apis
  refine ⟨by decide +kernel, (literal_segments_first _ _ _ _).mpr (.inr fun r hr => ?_)⟩
  have hfirst : firstRoute Strings.foldRune "get".toList (splitPath "/posts/7".toList) (Router.build apis) =
      some (routeOf (getAt 1 "/\x7ba\x7d/\x7bb\x7d")) := by decide +kernel
  cases hr.symm.trans hfirst
  decide +kernel

/-- Two routes with different paths match the request, and the one with parameters only is
taken because it is listed first. -/
theorem general_route_taken :
    let apis := [getAt 1 "/\x7ba\x7d/\x7bb\x7d", getAt 2 "/users/\x7bb\x7d"]
    (apis.map fun a => (a.method, a.path)).Nodup ∧
      ((matchPath Strings.foldRune (Router.build apis) "GET".toList "/users/7".toList).map fun m => m.1) =
        some (routeOf (getAt 1 "/\x7ba\x7d/\x7bb\x7d")) ∧
      (routeOf (getAt 2 "/users/\x7bb\x7d")).Matches Strings.foldRune "GET".toList
        (splitPath "/users/7".toList) ∧
      ¬ LiteralsFirst Strings.foldRune (Router.build apis) "GET".toList "/users/7".toList := by
  intro apis
  have htaken : ((matchPath Strings.foldRune (Router.build apis) "GET".toList "/users/7".toList).map fun m => m.1) =
      some (routeOf (getAt 1 "/\x7ba\x7d/\x7bb\x7d")) := by decide +kernel
  have hother : (routeOf (getAt 2 "/users/\x7bb\x7d")).Matches Strings.foldRune "GET".toList
      (splitPath "/users/7".toList) := by decide +kernel
  refine ⟨by decide +kernel, htaken, hother, fun h => ?_⟩
  obtain ⟨⟨r, params⟩, hmatch, hr⟩ := Option.map_eq_some_iff.mp htaken
  refine h r params hmatch _ (by simp [apis, Router.build]) hother ?_
  rw [show r = _ from hr]
  decide +kernel

end DDAG.Gateway
