import DDAG.Lib.Rows
import DDAG.Lib.Strings
import DDAG.Models

/-!
# The OpenAPI document

`GenerateOpenAPISpec` of `internal/gateway/openapi.go` folds the published APIs into a map from
paths to operations, and the operations of a path are keyed by their method.  OpenAPI 3.0 has no
key for `QUERY`: such an operation is put under `post` and marked with `x-ddag-http-method`.

An operation is the place of a *slot*, a path and a key, and a slot holds what the last API
with it wrote (`generated_operation`).  Of the methods an API can have, `POST` and `QUERY` are the
two that share a key, so one path with both of them loses the one that comes first:
`generated_documents_iff`.  A body parameter is a property of the request body under its name,
and there the same happens to two body parameters of one name.
-/

namespace DDAG.Gateway

open Strings

/-! ## The APIs that are documented -/

/-- The fields of a parameter that the document shows. -/
structure DocParameter where
  name : Text
  source : Text
  paramType : Text
  required : Bool
deriving DecidableEq

/-- The fields of an API definition that the document shows. -/
structure DocAPI where
  name : Text
  apiNamespace : Text
  path : Text
  method : Text
  description : Text
  requiredScope : Text
  parameters : List DocParameter
deriving DecidableEq

/-- The methods an API can be published with. -/
def documentedMethods : List Text :=
  ["GET".toList, "QUERY".toList, "POST".toList, "PUT".toList, "PATCH".toList, "DELETE".toList]

/-! ## Documents -/

inductive OpenAPISchema where
  /-- A schema with a type and perhaps a format. -/
  | plain (type format : Text)
  /-- A schema of type `object`. -/
  | object (properties : List (Text × OpenAPISchema))
  /-- A schema of type `array`. -/
  | array (items : OpenAPISchema)

structure OpenAPIParameter where
  name : Text
  location : Text
  required : Bool
  schema : OpenAPISchema

/-- A request body, whose content is an `application/json` object with these properties. -/
structure OpenAPIRequestBody where
  required : Bool
  properties : Text → Option OpenAPISchema

structure OpenAPIResponse where
  status : Text
  description : Text
  /-- The schema of its `application/json` content. -/
  content : Option OpenAPISchema

structure OpenAPIOperation where
  summary : Text
  description : Text
  tags : List Text
  parameters : List OpenAPIParameter
  requestBody : Option OpenAPIRequestBody
  responses : List OpenAPIResponse
  /-- Each requirement gives the scopes that a security scheme needs. -/
  security : List (List (Text × List Text))
  /-- The extension `x-ddag-http-method`, which is left out when it is empty. -/
  ddagMethod : Text

/-- The operations of a path by their key. -/
abbrev OpenAPIPath := Text → Option OpenAPIOperation

structure OpenAPISecurityScheme where
  name : Text
  type : Text
  scheme : Text
  bearerFormat : Text

structure OpenAPISpec where
  openAPI : Text
  title : Text
  version : Text
  paths : Text → Option OpenAPIPath
  securitySchemes : List OpenAPISecurityScheme
  tags : List Text

/-! ## Generating a document -/

def parameterLocation (source : Text) : Text :=
  if source = "path".toList ∨ source = "query".toList ∨ source = "header".toList then source
  else "query".toList

def schemaForParamType (t : Text) : OpenAPISchema :=
  if t = "int".toList then .plain "integer".toList "int64".toList
  else if t = "number".toList then .plain "number".toList "double".toList
  else if t = "bool".toList then .plain "boolean".toList []
  else if t = "uuid".toList then .plain "string".toList "uuid".toList
  else if t = "date".toList then .plain "string".toList "date".toList
  else .plain "string".toList []

def genericSuccessSchema : OpenAPISchema :=
  .object
    [("success".toList, .plain "boolean".toList []),
      ("request_id".toList, .plain "string".toList []),
      ("row_count".toList, .plain "integer".toList []),
      ("rows".toList, .array (.object []))]

/-- The parameter as it is documented. -/
def openAPIParameter (p : DocParameter) : OpenAPIParameter where
  name := p.name
  location := parameterLocation p.source
  required := p.required || p.source = "path".toList
  schema := schemaForParamType p.paramType

def DocParameter.inBody (p : DocParameter) : Bool := p.source = "body".toList

/-- A request body without properties, which the first body parameter makes. -/
def emptyBody : OpenAPIRequestBody where
  required := false
  properties := fun _ => none

/-- A body parameter is a property of the request body. -/
def addProperty (body : Option OpenAPIRequestBody) (p : DocParameter) : Option OpenAPIRequestBody :=
  let body := body.getD emptyBody
  some
    { required := body.required || p.required
      properties :=
        Function.update body.properties p.name (some (openAPIParameter p).schema) }

/-- One pass of the loop over the parameters. -/
def addParameter (op : OpenAPIOperation) (p : DocParameter) : OpenAPIOperation :=
  if p.inBody then { op with requestBody := addProperty op.requestBody p }
  else { op with parameters := op.parameters ++ [openAPIParameter p] }

/-- The method in lower case, where none is `get`. -/
def lowerMethod (method : Text) : Text :=
  if toLower method = [] then "get".toList else toLower method

def isQuery (method : Text) : Bool := lowerMethod method = "query".toList

/-- The key of an operation under its path. -/
def operationKey (method : Text) : Text :=
  if isQuery method then "post".toList else lowerMethod method

def methodMark (method : Text) : Text := if isQuery method then "QUERY".toList else []

/-- The operation before its parameters are added. -/
def bareOperation (api : DocAPI) : OpenAPIOperation where
  summary := api.name
  description := api.description
  tags := [api.apiNamespace]
  parameters := []
  requestBody := none
  responses :=
    [⟨"200".toList, "Successful DDAG response".toList, some genericSuccessSchema⟩,
      ⟨"401".toList, "Unauthorized".toList, none⟩, ⟨"403".toList, "Forbidden".toList, none⟩]
  security :=
    if api.requiredScope ≠ [] then [[("bearerAuth".toList, [api.requiredScope])]] else []
  ddagMethod := methodMark api.method

def operationOf (api : DocAPI) : OpenAPIOperation :=
  api.parameters.foldl addParameter (bareOperation api)

/-- The document while it is built, with the namespaces that have a tag. -/
structure Drafting where
  spec : OpenAPISpec
  seenTags : Text → Bool

def Drafting.tag (d : Drafting) (ns : Text) : Drafting :=
  if ns ≠ [] ∧ d.seenTags ns = false then
    { spec := { d.spec with tags := d.spec.tags ++ [ns] }
      seenTags := Function.update d.seenTags ns true }
  else d

/-- One pass of the loop over the APIs. -/
def Drafting.add (d : Drafting) (api : DocAPI) : Drafting :=
  let path := (d.spec.paths api.path).getD fun _ => none
  let path := Function.update path (operationKey api.method) (some (operationOf api))
  let spec := { d.spec with paths := Function.update d.spec.paths api.path (some path) }
  { d with spec := spec }.tag api.apiNamespace

def emptyDraft : Drafting where
  spec :=
    { openAPI := "3.0.3".toList
      title := "DDAG Dynamic APIs".toList
      version := "1.0.0".toList
      paths := fun _ => none
      securitySchemes := [⟨"bearerAuth".toList, "http".toList, "bearer".toList, "JWT".toList⟩]
      tags := [] }
  seenTags := fun _ => false

def generateOpenAPISpec (apis : List DocAPI) : OpenAPISpec := (apis.foldl Drafting.add emptyDraft).spec

/-! ## Slots -/

def OpenAPISpec.operation (spec : OpenAPISpec) (path key : Text) : Option OpenAPIOperation :=
  (spec.paths path).bind (· key)

/-- Where the operation of an API is written. -/
def DocAPI.slot (api : DocAPI) : Text × Text := (api.path, operationKey api.method)

theorem Drafting.tag_paths (d : Drafting) (ns : Text) : (d.tag ns).spec.paths = d.spec.paths := by
  unfold Drafting.tag
  split <;> rfl

/-- A pass writes the slot of its API and no other. -/
theorem Drafting.add_operation (d : Drafting) (api : DocAPI) (path key : Text) :
    (d.add api).spec.operation path key =
      if decide (api.slot = (path, key)) then some (operationOf api)
      else d.spec.operation path key := by
  simp only [OpenAPISpec.operation, Drafting.add, Drafting.tag_paths, DocAPI.slot, Prod.mk.injEq]
  by_cases hpath : api.path = path
  · subst hpath
    by_cases hkey : operationKey api.method = key
    · subst hkey
      simp
    · have hne : ¬ key = operationKey api.method := fun h => hkey h.symm
      simp only [Function.update_self, Option.bind_some, Function.update_of_ne hne, hkey, and_false,
        decide_false, Bool.false_eq_true, if_false]
      cases d.spec.paths api.path <;> rfl
  · simp [hpath, Function.update_of_ne (Ne.symm hpath)]

/-- A slot holds what the last API with it wrote. -/
theorem generated_operation (apis : List DocAPI) (path key : Text) :
    (generateOpenAPISpec apis).operation path key =
      (apis.reverse.find? (·.slot = (path, key))).map operationOf := by
  have hlast := Rows.foldl_last (fun d : Drafting => d.spec.operation path key)
    (fun d api => Drafting.add_operation d api path key) apis emptyDraft
  have hempty : emptyDraft.spec.operation path key = none := rfl
  rw [generateOpenAPISpec, hlast, hempty, Option.or_none]

/-- What a document holds was written by one of the APIs. -/
theorem generated_operation_source {apis : List DocAPI} {path key : Text} {op : OpenAPIOperation}
    (h : (generateOpenAPISpec apis).operation path key = some op) :
    ∃ api ∈ apis, api.slot = (path, key) ∧ operationOf api = op := by
  rw [generated_operation, Option.map_eq_some_iff] at h
  obtain ⟨api, hfind, hop⟩ := h
  exact ⟨api, List.mem_reverse.mp (List.mem_of_find?_eq_some hfind),
    by simpa using List.find?_some hfind, hop⟩

/-- An API that shares its slot with no other keeps its operation. -/
theorem generated_operation_kept {apis : List DocAPI} (hslots : (apis.map DocAPI.slot).Nodup)
    {api : DocAPI} (hmem : api ∈ apis) :
    (generateOpenAPISpec apis).operation api.path (operationKey api.method) =
      some (operationOf api) := by
  have hrev : (apis.reverse.map DocAPI.slot).Nodup := by
    rwa [List.map_reverse, List.nodup_reverse]
  have hfind : apis.reverse.find? (·.slot = (api.path, operationKey api.method)) = some api :=
    (Rows.find_key_eq_some hrev).mpr ⟨List.mem_reverse.mpr hmem, rfl⟩
  rw [generated_operation, hfind, Option.map_some]

/-! ## Methods and keys -/

/-- An operation is its method's when it stands under the method's own key without a mark, or
is marked with the method. -/
def Identifies (key mark method : Text) : Prop :=
  (mark = [] ∧ key = toLower method) ∨ mark = method

instance (key mark method : Text) : Decidable (Identifies key mark method) :=
  inferInstanceAs (Decidable (_ ∨ _))

theorem identifies_own {method : Text} (hm : method ∈ documentedMethods) :
    Identifies (operationKey method) (methodMark method) method := by
  have hall : ∀ m ∈ documentedMethods, Identifies (operationKey m) (methodMark m) m := by decide
  exact hall method hm

/-- Two methods share a key if they are one, or `POST` and `QUERY`. -/
theorem operationKey_eq {m m' : Text} (hm : m ∈ documentedMethods) (hm' : m' ∈ documentedMethods)
    (h : operationKey m = operationKey m') :
    m = m' ∨ (m = "POST".toList ∧ m' = "QUERY".toList) ∨
      (m' = "POST".toList ∧ m = "QUERY".toList) := by
  have hall : ∀ m ∈ documentedMethods, ∀ m' ∈ documentedMethods, operationKey m = operationKey m' →
      m = m' ∨ (m = "POST".toList ∧ m' = "QUERY".toList) ∨
        (m' = "POST".toList ∧ m = "QUERY".toList) := by
    decide
  exact hall m hm m' hm' h

/-- An operation that is identified as `POST` stands under `post` without a mark. -/
theorem identifies_post {key method : Text}
    (h : Identifies key (methodMark method) "POST".toList) :
    key = "post".toList ∧ methodMark method = [] := by
  obtain ⟨hmark, hkey⟩ | hmark := h
  · exact ⟨hkey, hmark⟩
  · rw [methodMark] at hmark
    split at hmark
    next _ => exact absurd hmark (by decide)
    next _ => exact absurd hmark (by decide)

/-- One that is identified as `QUERY` stands under `post` with a mark. -/
theorem identifies_query {method : Text}
    (h : Identifies (operationKey method) (methodMark method) "QUERY".toList) :
    operationKey method = "post".toList ∧ methodMark method = "QUERY".toList := by
  cases hq : isQuery method with
  | true => exact ⟨by rw [operationKey, if_pos hq], by rw [methodMark, if_pos hq]⟩
  | false =>
      have hne : lowerMethod method ≠ "query".toList := of_decide_eq_false hq
      rw [operationKey, methodMark, hq] at h
      obtain ⟨-, hkey⟩ | hmark := h
      · exact absurd (hkey.trans (by decide)) hne
      · exact absurd hmark (by decide)

/-! ## Operations -/

def property (body : Option OpenAPIRequestBody) (name : Text) : Option OpenAPISchema :=
  body.bind (·.properties name)

/-- The parameters of an API that its request body has. -/
def DocAPI.bodyParameters (api : DocAPI) : List DocParameter := api.parameters.filter (·.inBody)

/-- The loop over the parameters splits them between the operation and its request body. -/
theorem foldl_addParameter (ps : List DocParameter) (op : OpenAPIOperation) :
    ps.foldl addParameter op =
      { op with
        parameters := op.parameters ++ (ps.filter (!·.inBody)).map openAPIParameter
        requestBody := (ps.filter (·.inBody)).foldl addProperty op.requestBody } := by
  induction ps generalizing op with
  | nil => simp
  | cons p rest ih =>
      rw [List.foldl_cons, ih, addParameter]
      cases hp : p.inBody <;> simp [hp]

theorem operationOf_eq (api : DocAPI) :
    operationOf api =
      { bareOperation api with
        parameters := (api.parameters.filter (!·.inBody)).map openAPIParameter
        requestBody := api.bodyParameters.foldl addProperty none } :=
  foldl_addParameter api.parameters (bareOperation api)

theorem operationOf_ddagMethod (api : DocAPI) :
    (operationOf api).ddagMethod = methodMark api.method := by
  rw [operationOf_eq]
  rfl

theorem addProperty_property (body : Option OpenAPIRequestBody) (p : DocParameter) (name : Text) :
    property (addProperty body p) name =
      if decide (p.name = name) then some (schemaForParamType p.paramType)
      else property body name := by
  by_cases hname : p.name = name
  · simp [property, addProperty, hname, openAPIParameter]
  · cases body <;> simp [property, addProperty, hname, Function.update_of_ne (Ne.symm hname), emptyBody]

/-- A property has the schema of the last parameter of its name. -/
theorem foldl_addProperty_property (ps : List DocParameter) (name : Text) :
    property (ps.foldl addProperty none) name =
      (ps.reverse.find? (·.name = name)).map fun p => schemaForParamType p.paramType := by
  have hlast := Rows.foldl_last (fun body => property body name)
    (fun body p => addProperty_property body p name) ps none
  rw [hlast, show property none name = none from rfl, Option.or_none]

theorem foldl_addProperty_required (ps : List DocParameter) (body : Option OpenAPIRequestBody) :
    (ps.foldl addProperty body).any (·.required) =
      (body.any (·.required) || ps.any (·.required)) := by
  induction ps generalizing body with
  | nil => simp
  | cons p rest ih =>
      rw [List.foldl_cons, ih]
      cases body <;> simp [addProperty, emptyBody, Bool.or_assoc]

/-! ## Documented APIs -/

/-- The operation has the summary, the scope and the parameters of the API. -/
structure Carries (op : OpenAPIOperation) (api : DocAPI) : Prop where
  summary : op.summary = api.name
  scope : op.security =
    if api.requiredScope = [] then [] else [[("bearerAuth".toList, [api.requiredScope])]]
  parameters : op.parameters = (api.parameters.filter (!·.inBody)).map openAPIParameter
  /-- Every body parameter is a property with its schema. -/
  body : ∀ p ∈ api.bodyParameters,
    property op.requestBody p.name = some (schemaForParamType p.paramType)
  /-- Every property is a body parameter. -/
  bodyOnly : ∀ name, property op.requestBody name ≠ none → ∃ p ∈ api.bodyParameters, p.name = name
  bodyRequired : op.requestBody.any (·.required) = api.bodyParameters.any (·.required)

/-- Body parameters of one name have one schema. -/
def DocAPI.OneSchema (api : DocAPI) : Prop :=
  ∀ p ∈ api.bodyParameters, ∀ q ∈ api.bodyParameters, p.name = q.name →
    schemaForParamType p.paramType = schemaForParamType q.paramType

theorem Carries.oneSchema {op : OpenAPIOperation} {api : DocAPI} (h : Carries op api) :
    api.OneSchema := by
  intro p hp q hq hname
  have hschema := h.body p hp
  rw [hname, h.body q hq] at hschema
  exact (Option.some.inj hschema).symm

theorem carries_operationOf {api : DocAPI} (hone : api.OneSchema) : Carries (operationOf api) api := by
  rw [operationOf_eq]
  refine ⟨rfl, ?_, rfl, ?_, ?_, ?_⟩
  · show (if api.requiredScope ≠ [] then _ else _) = _
    rw [ite_not]
  · intro p hp
    show property (api.bodyParameters.foldl addProperty none) p.name = _
    rw [foldl_addProperty_property]
    -- the last parameter of the name need not be `p`, but it has the same schema
    cases hfind : api.bodyParameters.reverse.find? (·.name = p.name) with
    | none =>
        have hnone := List.find?_eq_none.mp hfind p (List.mem_reverse.mpr hp)
        exact absurd (decide_eq_true rfl) hnone
    | some q =>
        have hq : q ∈ api.bodyParameters := List.mem_reverse.mp (List.mem_of_find?_eq_some hfind)
        have hname : q.name = p.name := by simpa using List.find?_some hfind
        rw [Option.map_some, hone q hq p hp hname]
  · intro name hname
    change property (api.bodyParameters.foldl addProperty none) name ≠ none at hname
    rw [foldl_addProperty_property, Option.ne_none_iff_isSome, Option.isSome_map,
      List.find?_isSome] at hname
    obtain ⟨p, hp, hpname⟩ := hname
    exact ⟨p, List.mem_reverse.mp hp, by simpa using hpname⟩
  · show (api.bodyParameters.foldl addProperty none).any (·.required) = _
    rw [foldl_addProperty_required]
    rfl

def Documented (spec : OpenAPISpec) (api : DocAPI) : Prop :=
  ∃ key op, spec.operation api.path key = some op ∧ Carries op api ∧
    Identifies key op.ddagMethod api.method

/-- The operation that was written for the API is still there. -/
def Kept (spec : OpenAPISpec) (api : DocAPI) : Prop :=
  spec.operation api.path (operationKey api.method) = some (operationOf api)

/-- No path has both a `POST` and a `QUERY`. -/
def PostsApart (apis : List DocAPI) : Prop :=
  ∀ a ∈ apis, ∀ b ∈ apis, a.path = b.path → ¬ (a.method = "POST".toList ∧ b.method = "QUERY".toList)

/-- The slots of APIs with different routes are different, unless `POST` and `QUERY` meet. -/
theorem slots_nodup {apis : List DocAPI} (hmethods : ∀ api ∈ apis, api.method ∈ documentedMethods)
    (hdistinct : (apis.map fun api => (api.method, api.path)).Nodup) (hposts : PostsApart apis) :
    (apis.map DocAPI.slot).Nodup := by
  rw [List.nodup_map_iff_inj_on (List.Nodup.of_map _ hdistinct)]
  intro a ha b hb hslot
  obtain ⟨hpath, hkey⟩ := Prod.mk.inj hslot
  apply List.inj_on_of_nodup_map hdistinct ha hb
  obtain hsame | hclash | hclash := operationKey_eq (hmethods a ha) (hmethods b hb) hkey
  · rw [hsame, hpath]
  · exact absurd hclash (hposts a ha b hb hpath)
  · exact absurd hclash (hposts b hb a ha hpath.symm)

/-- A document never has both a `POST` and a `QUERY` of one path. -/
theorem not_documented_both {apis : List DocAPI} {a b : DocAPI} (hpath : a.path = b.path)
    (hpost : a.method = "POST".toList) (hquery : b.method = "QUERY".toList)
    (ha : Documented (generateOpenAPISpec apis) a) :
    ¬ Documented (generateOpenAPISpec apis) b := by
  rintro ⟨keyB, opB, hopB, -, hidB⟩
  obtain ⟨keyA, opA, hopA, -, hidA⟩ := ha
  obtain ⟨srcA, -, -, rfl⟩ := generated_operation_source hopA
  obtain ⟨srcB, -, hslotB, rfl⟩ := generated_operation_source hopB
  rw [operationOf_ddagMethod, hpost] at hidA
  obtain ⟨rfl, hmarkA⟩ := identifies_post hidA
  rw [operationOf_ddagMethod, hquery] at hidB
  obtain ⟨-, rfl⟩ := Prod.mk.inj hslotB
  obtain ⟨hkeyB, hmarkB⟩ := identifies_query hidB
  -- both stand under `post`, so they are one operation
  rw [hkeyB, ← hpath, hopA] at hopB
  have hmark := congrArg OpenAPIOperation.ddagMethod (Option.some.inj hopB)
  rw [operationOf_ddagMethod, operationOf_ddagMethod, hmarkA, hmarkB] at hmark
  exact absurd hmark (by decide)

/-- Every API has its operation in the document, and none is overwritten, exactly when no path has
both a `POST` and a `QUERY` and no API has two body parameters of one name and different
schemas. -/
theorem generated_documents_iff (apis : List DocAPI)
    (hmethods : ∀ api ∈ apis, api.method ∈ documentedMethods)
    (hdistinct : (apis.map fun api => (api.method, api.path)).Nodup) :
    (∀ api ∈ apis, Documented (generateOpenAPISpec apis) api ∧ Kept (generateOpenAPISpec apis) api) ↔
      PostsApart apis ∧ ∀ api ∈ apis, api.OneSchema := by
  constructor
  · intro hall
    refine ⟨?_, fun api hmem => ?_⟩
    · rintro a ha b hb hpath ⟨hpost, hquery⟩
      exact not_documented_both hpath hpost hquery (hall a ha).1 (hall b hb).1
    · obtain ⟨_, _, _, hcarries, _⟩ := (hall api hmem).1
      exact hcarries.oneSchema
  · rintro ⟨hposts, hone⟩ api hmem
    have hkept := generated_operation_kept (slots_nodup hmethods hdistinct hposts) hmem
    refine ⟨⟨_, _, hkept, carries_operationOf (hone api hmem), ?_⟩, hkept⟩
    rw [operationOf_ddagMethod]
    exact identifies_own (hmethods api hmem)

/-- An API on the path of the sites. -/
def sitesAPI (name method : String) (parameters : List DocParameter) : DocAPI where
  name := name.toList
  apiNamespace := "brim".toList
  path := "/api/v1/sites".toList
  method := method.toList
  description := []
  requiredScope := "brim.site.read".toList
  parameters := parameters

theorem sites_list_and_search :
    let term : DocParameter := ⟨"term".toList, "body".toList, "string".toList, true⟩
    let apis := [sitesAPI "List sites" "GET" [], sitesAPI "Search sites" "QUERY" [term]]
    ∀ api ∈ apis, Documented (generateOpenAPISpec apis) api ∧ Kept (generateOpenAPISpec apis) api := by
  intro term apis
  apply (generated_documents_iff apis (by decide) (by decide)).mpr
  refine ⟨by unfold PostsApart; decide, ?_⟩
  have hbody : ∀ api ∈ apis, ∀ p ∈ api.bodyParameters, p = term := by decide
  intro api hmem p hp q hq _
  rw [hbody api hmem p hp, hbody api hmem q hq]

/-- Of a `POST` and a `QUERY` on one path the document has the later one. -/
theorem created_site_overwritten :
    let create := sitesAPI "Create site" "POST" []
    let search := sitesAPI "Search sites" "QUERY" []
    create.method ∈ documentedMethods ∧ search.method ∈ documentedMethods ∧
      (create.method, create.path) ≠ (search.method, search.path) ∧
      Documented (generateOpenAPISpec [create, search]) search ∧
      ¬ Documented (generateOpenAPISpec [create, search]) create := by
  intro create search
  have hone : search.OneSchema := by
    intro p hp
    cases hp
  have hsearch : Documented (generateOpenAPISpec [create, search]) search :=
    ⟨"post".toList, operationOf search, rfl, carries_operationOf hone, .inr rfl⟩
  have hpath : create.path = search.path := rfl
  exact ⟨by decide, by decide, by decide, hsearch,
    fun hcreate => not_documented_both hpath rfl rfl hcreate hsearch⟩

end DDAG.Gateway
