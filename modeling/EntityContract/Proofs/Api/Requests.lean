import Mathlib.Data.List.Forall2
import EntityContract.Api.Binding
import EntityContract.Proofs.Api.Routing
import EntityContract.Proofs.Arena.Ending
import EntityContract.Proofs.Json.Numeral

/-!
Validating requests. What the path of a matched request says is text and accepted as it is; of the
query only the limit can be wrong, if it is no integer of 64 bits; and the body of a publication is
checked as an entity. Whatever else a request carries is of no account. Main statement:
`bindEndpoints_validateRequest`.
-/

namespace EntityContract

theorem forall₂_of_mapM {ε α β : Type} {f : α → Except ε β} {xs : List α} {ys : List β}
    (h : xs.mapM f = .ok ys) : List.Forall₂ (fun x y => f x = .ok y) xs ys := by
  induction xs generalizing ys with
  | nil =>
      cases h
      exact .nil
  | cons x xs ih =>
      rw [List.mapM_cons, bind_eq_ok_iff] at h
      obtain ⟨y, hy, h⟩ := h
      obtain ⟨rest, hrest, h⟩ := bind_eq_ok_iff.mp h
      cases h
      exact .cons hy (ih hrest)

/-- A text of a query writes a value for a shape that asks for an integer, a number or a truth
value. -/
inductive Shape.Writes : Shape → String → Json → Prop
  | integer {text : String} {value : Int} :
      Number.WritesInt64 text value → Writes .integer text (Json.int value)
  | number {text : String} {value : Binary64} :
      Number.WritesFloat text.toList value → Writes .number text (.num (.float value))
  | boolean (value : Bool) : Writes .boolean (toString value) (.bool value)

theorem Shape.written?_eq_some_iff {shape : Shape} {text : String} {value : Json} :
    shape.written? text = some value ↔ shape.Writes text value := by
  constructor
  · intro h
    unfold Shape.written? at h
    split at h
    · obtain ⟨number, hnumber, rfl⟩ := Option.map_eq_some_iff.mp h
      exact .integer (Number.int64?_eq_some_iff.mp hnumber)
    · obtain ⟨number, hnumber, rfl⟩ := Option.map_eq_some_iff.mp h
      exact .number (Number.signedDecimal?_eq_some_iff.mp hnumber)
    · split at h
      · rename_i htext
        cases h
        exact htext ▸ .boolean true
      · split at h
        · rename_i htext
          cases h
          exact htext ▸ .boolean false
        · exact nomatch h
    · exact nomatch h
  · intro h
    cases h with
    | integer hwrites => rw [written?, Number.int64?_eq_some_iff.mpr hwrites]; rfl
    | number hwrites => rw [written?, Number.signedDecimal?_eq_some_iff.mpr hwrites]; rfl
    | boolean value => cases value <;> rfl

/-- What is rejected is rejected for a reason. -/
theorem Validator.ne_nil_of_invalid {validator : Validator} {value : Json}
    {violations : List Violation} (h : validator.validate value = .invalid violations) :
    violations ≠ [] := by
  rw [validate] at h
  split at h
  · exact nomatch h
  · rename_i hne
    cases h
    exact hne

namespace Registry

variable {registry : Registry} {validator : Validator}

theorem exists_compileDepth (registry : Registry) (shape : Shape) :
    ∃ n, registry.compileDepth shape = n + 2 := by
  have hle : registry.weight + shape.weight + 2 ≤ registry.compileDepth shape := four_pow_bound _
  exact ⟨registry.compileDepth shape - 2, by omega⟩

/-- The validator of texts. -/
def textOnly : Validator := ⟨⟨#[.string .any]⟩, 0, none⟩

theorem compileShape_text : registry.compileShape (.string .any) = .ok textOnly := by
  obtain ⟨n, hn⟩ := registry.exists_compileDepth (.string .any)
  rw [compileShape, Build.complete, hn]
  rfl

theorem compileShape_optional_text :
    registry.compileShape (.optional (.string .any) none) = .ok textOnly := by
  obtain ⟨n, hn⟩ := registry.exists_compileDepth (.optional (.string .any) none)
  rw [compileShape, Build.complete, hn]
  rfl

/-- The shapes that a text of a query can be read for, each with its node and the name of what it
asks for. -/
inductive Scalar : Shape → Node → String → Prop
  | integer : Scalar .integer .integer "integer"
  | number : Scalar .number .number "number"
  | boolean : Scalar .boolean .boolean "boolean"

/-- The validator of such a shape. -/
def scalarOnly (node : Node) : Validator := ⟨⟨#[node]⟩, 0, none⟩

theorem compileShape_optional_scalar {shape : Shape} {node : Node} {name : String}
    (h : Scalar shape node name) :
    registry.compileShape (.optional shape none) = .ok (scalarOnly node) := by
  obtain ⟨n, hn⟩ := registry.exists_compileDepth (.optional shape none)
  rw [compileShape, Build.complete, hn]
  cases h <;> rfl

/-- A reference is compiled as the entity is; only the name of the validator tells them apart. -/
theorem compile_of_compileShape {key : String}
    (h : registry.compileShape (.ref key) = .ok validator) :
    ∃ entity, registry.compile key = .ok entity ∧
      ∀ value, validator.validate value = entity.validate value := by
  obtain ⟨⟨root, arena⟩, hfinish, h⟩ := bind_eq_ok_iff.mp h
  cases h
  refine ⟨⟨arena, root, some key⟩, ?_, fun value => rfl⟩
  rw [compile, hfinish]
  rfl

end Registry

/-- The text that a query gives to a name, if the operation declares the name. -/
def Endpoint.asked? (endpoint : Endpoint) (query : List (String × String)) (name : String) :
    Option String :=
  (endpoint.parameter? name).bind fun _ => query.lookup name

/-- What a matched request says: the values of its path, the cursor and the limit, in this order. -/
def RequestParts.document (request : RequestParts) (cursor? : Option String) (limit? : Option Int) :
    Json :=
  .obj (request.path.map (fun param => (param.1, .str param.2)) ++
    (cursor?.map fun cursor => ("cursor", .str cursor)).toList ++
    (limit?.map fun limit => ("limit", Json.int limit)).toList)

namespace BoundEndpoint

open Registry

/-- The request is what its path and its query say, unless its limit is no integer of 64 bits, which
is all that can be wrong. -/
structure ReadsQuery (bound : BoundEndpoint) (request : RequestParts) : Prop where
  isValid_iff : (bound.validateRequest request).isValid = true ↔
    ∀ text, bound.endpoint.asked? request.query "limit" = some text →
      ∃ value, Number.WritesInt64 text value
  valid : ∀ limit?,
    Option.Rel Number.WritesInt64 (bound.endpoint.asked? request.query "limit") limit? →
      bound.validateRequest request =
        .valid (request.document (bound.endpoint.asked? request.query "cursor") limit?) none
  invalid : ∀ text, bound.endpoint.asked? request.query "limit" = some text →
    (∀ value, ¬Number.WritesInt64 text value) →
      bound.validateRequest request = .invalid [⟨[.key "limit"], .type "integer" (.str text), []⟩]

/-- The request is its body, as the validator makes it; what is wrong is wrong in the body, or there
is none. -/
structure TakesBody (bound : BoundEndpoint) (detail : Validator) (request : RequestParts) :
    Prop where
  isValid_iff : (bound.validateRequest request).isValid = true ↔
    ∃ body, request.body = some body ∧ (detail.validate body).isValid = true
  missing : request.body = none →
    bound.validateRequest request = .invalid [⟨[.key "body"], .missingParameter, []⟩]
  valid : ∀ body document label?, request.body = some body →
    detail.validate body = .valid document label? →
      bound.validateRequest request = .valid (.obj [("body", document)]) none
  invalid : ∀ body violations, request.body = some body →
    detail.validate body = .invalid violations →
      bound.validateRequest request = .invalid (violations.map fun violation =>
        { violation with path := .key "body" :: violation.path })

/-- The requests give the same to what the operation declares: to names of the path and of the
query, and as a body where the operation is no query. -/
structure AgreeOn (endpoint : Endpoint) (request other : RequestParts) : Prop where
  path : ∀ parameter ∈ endpoint.parameters, parameter.location = .path →
    request.path.lookup parameter.name = other.path.lookup parameter.name
  query : ∀ parameter ∈ endpoint.parameters, parameter.location = .query →
    request.query.lookup parameter.name = other.query.lookup parameter.name
  body : endpoint.method ≠ .get → request.body = other.body

variable {registry : Registry} {bound : BoundEndpoint} {endpoint : Endpoint}
  {request : RequestParts} {validator : Validator} {text : String}

theorem checkParameter_path {name : String} (h : request.path.lookup name = some text) :
    checkParameter request ⟨name, .path, .string .any⟩ textOnly = ([(name, .str text)], []) := by
  rw [checkParameter, RequestParts.value?]
  dsimp only
  rw [h]
  rfl

theorem checkParameter_cursor {name : String} :
    checkParameter request ⟨name, .query, .optional (.string .any) none⟩ textOnly =
      (((request.query.lookup name).map fun text => (name, .str text)).toList, []) := by
  rw [checkParameter, RequestParts.value?]
  dsimp only
  cases request.query.lookup name with
  | none => rfl
  | some text => rfl

section Scalar

variable {shape : Shape} {node : Node} {name kind : String}

/-- What a text writes for the shape of a parameter is accepted as it is. -/
theorem checkParameter_scalar (hscalar : Scalar shape node kind) {value? : Option Json}
    (h : Option.Rel shape.Writes (request.query.lookup name) value?) :
    checkParameter request ⟨name, .query, .optional shape none⟩ (scalarOnly node) =
      ((value?.map fun value => (name, value)).toList, []) := by
  rw [checkParameter, RequestParts.value?]
  dsimp only
  generalize request.query.lookup name = text? at h
  cases h with
  | none => rfl
  | some hwrites =>
      rw [Option.map_some, queryValue, Shape.written?_eq_some_iff.mpr hwrites]
      cases hscalar <;> cases hwrites <;> rfl

/-- A text that writes nothing for the shape of a parameter is rejected as a text. -/
theorem checkParameter_scalar_text (hscalar : Scalar shape node kind)
    (h : request.query.lookup name = some text) (htext : ∀ value, ¬shape.Writes text value) :
    checkParameter request ⟨name, .query, .optional shape none⟩ (scalarOnly node) =
      ([], [⟨[.key name], .type kind (.str text), []⟩]) := by
  have hwritten : shape.written? text = none := Option.eq_none_iff_forall_ne_some.mpr
    fun value hvalue => htext value (Shape.written?_eq_some_iff.mp hvalue)
  rw [checkParameter, RequestParts.value?]
  dsimp only
  rw [h, Option.map_some, queryValue, hwritten]
  cases hscalar <;> rfl

end Scalar

/-- Zero keeps its sign; neither infinity nor a truth value in capitals is read. -/
example : queryValue .number "-0" = .num (.float (.zero true)) ∧
    queryValue .number "inf" = .str "inf" ∧
    queryValue (.optional .boolean none) "true" = .bool true ∧
    queryValue (.optional .boolean none) "TRUE" = .str "TRUE" := by
  refine ⟨?_, ?_, ?_, ?_⟩ <;> rfl

theorem checkParameter_limit {name : String} {limit? : Option Int}
    (h : Option.Rel Number.WritesInt64 (request.query.lookup name) limit?) :
    checkParameter request ⟨name, .query, .optional .integer none⟩ (scalarOnly .integer) =
      ((limit?.map fun limit => (name, Json.int limit)).toList, []) := by
  have hwrites : Option.Rel Shape.integer.Writes (request.query.lookup name)
      (limit?.map Json.int) := by
    generalize request.query.lookup name = text? at h
    cases h with
    | none => exact .none
    | some hlimit => exact .some (.integer hlimit)
  rw [checkParameter_scalar .integer hwrites, Option.map_map]
  rfl

theorem checkParameter_limit_text {name : String} (h : request.query.lookup name = some text)
    (htext : ∀ value, ¬Number.WritesInt64 text value) :
    checkParameter request ⟨name, .query, .optional .integer none⟩ (scalarOnly .integer) =
      ([], [⟨[.key name], .type "integer" (.str text), []⟩]) := by
  refine checkParameter_scalar_text .integer h fun value hwrites => ?_
  cases hwrites with
  | integer hlimit => exact htext _ hlimit

section Body

variable {name key : String} {body : Json}

theorem checkParameter_body_missing (h : request.body = none) :
    checkParameter request ⟨name, .body, .ref key⟩ validator =
      ([], [⟨[.key name], .missingParameter, []⟩]) := by
  rw [checkParameter, RequestParts.value?]
  dsimp only
  rw [h]

theorem checkParameter_body {document : Json} {label? : Option String}
    (h : request.body = some body) (hdocument : validator.validate body = .valid document label?) :
    checkParameter request ⟨name, .body, .ref key⟩ validator = ([(name, document)], []) := by
  rw [checkParameter, RequestParts.value?]
  dsimp only
  rw [h]
  dsimp only
  rw [hdocument]

theorem checkParameter_body_invalid {violations : List Violation} (h : request.body = some body)
    (hviolations : validator.validate body = .invalid violations) :
    checkParameter request ⟨name, .body, .ref key⟩ validator =
      ([], violations.map (·.under (.key name))) := by
  rw [checkParameter, RequestParts.value?]
  dsimp only
  rw [h]
  dsimp only
  rw [hviolations]

end Body

section Checked

variable {checked : List (Members × List Violation)}
  (h : bound.parameters.map (fun parameter => checkParameter request parameter.1 parameter.2) =
    checked)

include h

theorem validateRequest_of_accepts (hchecked : checked.flatMap (·.2) = []) :
    bound.validateRequest request =
      .valid (.obj (Members.ofWritten (checked.flatMap (·.1)))) none := by
  rw [validateRequest, h, hchecked]

theorem validateRequest_of_rejects (hchecked : checked.flatMap (·.2) ≠ []) :
    bound.validateRequest request = .invalid (checked.flatMap (·.2)) := by
  rw [validateRequest, h]
  split
  · rename_i hnone
    exact absurd hnone hchecked
  · rfl

end Checked

/-- The parameter with a validator of its shape. -/
def Compiled (registry : Registry) (parameter : Parameter) (checked : Parameter × Validator) :
    Prop :=
  checked.1 = parameter ∧ registry.compileShape parameter.shape = .ok checked.2

/-- Binding an operation keeps its parameters, each with a validator of its shape. -/
theorem parameters_of_bind (h : bind registry endpoint = .ok bound) :
    bound.endpoint = endpoint ∧
      List.Forall₂ (Compiled registry) endpoint.parameters bound.parameters := by
  obtain ⟨parameters, hparameters, h⟩ := bind_eq_ok_iff.mp h
  obtain ⟨errors, -, h⟩ := bind_eq_ok_iff.mp h
  obtain ⟨response, -, h⟩ := bind_eq_ok_iff.mp h
  cases h
  refine ⟨rfl, (forall₂_of_mapM hparameters).imp fun parameter checked hchecked => ?_⟩
  obtain ⟨validator, hvalidator, hchecked⟩ := bind_eq_ok_iff.mp hchecked
  cases hchecked
  exact ⟨rfl, hvalidator⟩

theorem compiled_unique {parameters : List Parameter}
    {checked checked' : List (Parameter × Validator)}
    (h : List.Forall₂ (Compiled registry) parameters checked)
    (h' : List.Forall₂ (Compiled registry) parameters checked') : checked = checked' := by
  refine List.right_unique_forall₂' ?_ h h'
  intro parameter compiled compiled' hcompiled hcompiled'
  exact Prod.ext (hcompiled.1.trans hcompiled'.1.symm)
    (Except.ok.inj (hcompiled.2.symm.trans hcompiled'.2))

theorem compiled_path (names : List String) :
    List.Forall₂ (Compiled registry) (names.map fun name => ⟨name, .path, .string .any⟩)
      (names.map fun name => (⟨name, .path, .string .any⟩, textOnly)) := by
  rw [List.forall₂_map_left_iff, List.forall₂_map_right_iff, List.forall₂_same]
  exact fun name _ => ⟨rfl, compileShape_text⟩

/-- If the values of the path are given for all parameters, the request is what they say. -/
theorem validateRequest_of_path
    (h : bound.parameters = (request.path.map (·.1)).map fun name =>
      (⟨name, .path, .string .any⟩, textOnly)) (hnodup : (request.path.map (·.1)).Nodup) :
    bound.validateRequest request =
      .valid (.obj (request.path.map fun param => (param.1, .str param.2))) none := by
  have hchecked : bound.parameters.map (fun parameter =>
      checkParameter request parameter.1 parameter.2) =
        request.path.map fun param => ([(param.1, Json.str param.2)], []) := by
    rw [h, List.map_map, List.map_map]
    refine List.map_congr_left fun param hparam => ?_
    exact checkParameter_path (Association.lookup_of_mem hnodup hparam)
  have hmembers : (request.path.map fun param => (param.1, Json.str param.2)).map (·.1) =
      request.path.map (·.1) := List.map_map
  rw [validateRequest_of_accepts hchecked, List.flatMap_map, ← List.map_eq_flatMap,
    Members.ofWritten_of_nodup (hmembers ▸ hnodup)]
  rw [List.flatMap_map, List.flatMap_eq_nil_iff]
  exact fun _ _ => rfl

theorem ReadsQuery.of_cases
    (hvalid : ∀ limit?,
      Option.Rel Number.WritesInt64 (bound.endpoint.asked? request.query "limit") limit? →
        bound.validateRequest request =
          .valid (request.document (bound.endpoint.asked? request.query "cursor") limit?) none)
    (hinvalid : ∀ text, bound.endpoint.asked? request.query "limit" = some text →
      (∀ value, ¬Number.WritesInt64 text value) → bound.validateRequest request =
        .invalid [⟨[.key "limit"], .type "integer" (.str text), []⟩]) :
    bound.ReadsQuery request := by
  refine ⟨⟨fun haccepts text htext => ?_, fun hlimit => ?_⟩, hvalid, hinvalid⟩
  · by_contra hnone
    rw [hinvalid text htext fun value hvalue => hnone ⟨value, hvalue⟩] at haccepts
    exact Bool.false_ne_true haccepts
  · cases hasked : bound.endpoint.asked? request.query "limit" with
    | none => rw [hvalid none (by rw [hasked]; exact .none)]; rfl
    | some text =>
        obtain ⟨value, hvalue⟩ := hlimit text hasked
        rw [hvalid (some value) (by rw [hasked]; exact .some hvalue)]
        rfl

theorem readsQuery_of_path (hbind : bind registry endpoint = .ok bound)
    (hparameters : endpoint.parameters =
      endpoint.template.placeholders.map fun name => ⟨name, .path, .string .any⟩)
    (hnodup : endpoint.template.placeholders.Nodup)
    (hlimit : endpoint.parameter? "limit" = none) (hcursor : endpoint.parameter? "cursor" = none)
    (hpath : request.path.map (·.1) = endpoint.template.placeholders) :
    bound.ReadsQuery request := by
  obtain ⟨rfl, hchecked⟩ := parameters_of_bind hbind
  rw [hparameters] at hchecked
  have hresult := validateRequest_of_path
    (hpath ▸ compiled_unique hchecked (compiled_path _)) (hpath ▸ hnodup)
  have hasked : bound.endpoint.asked? request.query "limit" = none := by
    rw [Endpoint.asked?, hlimit]
    rfl
  refine .of_cases (fun limit? hrel => ?_) fun text htext => ?_
  · rw [hasked] at hrel
    cases hrel
    rw [hresult, RequestParts.document, Endpoint.asked?, hcursor]
    simp
  · exact nomatch hasked.symm.trans htext

theorem readsQuery_of_list (hbind : bind registry .listServers = .ok bound)
    (hpath : request.path = []) : bound.ReadsQuery request := by
  obtain ⟨hendpoint, hchecked⟩ := parameters_of_bind hbind
  have hparameters : bound.parameters =
      [(⟨"cursor", .query, .optional (.string .any) none⟩, textOnly),
        (⟨"limit", .query, .optional .integer none⟩, scalarOnly .integer)] :=
    compiled_unique hchecked
      (.cons ⟨rfl, compileShape_optional_text⟩
        (.cons ⟨rfl, compileShape_optional_scalar .integer⟩ .nil))
  have hasked : ∀ name ∈ ["cursor", "limit"],
      bound.endpoint.asked? request.query name = request.query.lookup name := by
    rw [hendpoint, List.forall_mem_cons, List.forall_mem_singleton]
    exact ⟨rfl, rfl⟩
  have hpair : ∀ {brought}, checkParameter request ⟨"limit", .query, .optional .integer none⟩
      (scalarOnly .integer) = brought → bound.parameters.map (fun parameter =>
        checkParameter request parameter.1 parameter.2) =
          [(((request.query.lookup "cursor").map fun text => ("cursor", .str text)).toList, []),
            brought] := by
    intro brought hbrought
    rw [hparameters, List.map_cons, List.map_singleton, checkParameter_cursor, hbrought]
  refine .of_cases (fun limit? hrel => ?_) fun text htext hwrites => ?_
  · rw [hasked "limit" (by simp)] at hrel
    rw [validateRequest_of_accepts (hpair (checkParameter_limit hrel)) rfl,
      hasked "cursor" (by simp), RequestParts.document, hpath]
    cases request.query.lookup "cursor" <;> cases limit? <;> rfl
  · rw [hasked "limit" (by simp)] at htext
    exact validateRequest_of_rejects (hpair (checkParameter_limit_text htext hwrites)) (by simp)

theorem takesBody_of_publish (hbind : bind registry .publish = .ok bound) :
    ∃ detail, registry.compile "ServerDetail" = .ok detail ∧
      ∀ request, bound.TakesBody detail request := by
  obtain ⟨-, hchecked⟩ := parameters_of_bind hbind
  obtain ⟨⟨parameter, validator⟩, hparameters, rfl, hvalidator⟩ :
      ∃ checked, bound.parameters = [checked] ∧
        Compiled registry ⟨"body", .body, .ref "ServerDetail"⟩ checked := by
    generalize bound.parameters = parameters at hchecked
    cases hchecked with
    | cons hcompiled hrest =>
        cases hrest
        exact ⟨_, rfl, hcompiled⟩
  obtain ⟨detail, hdetail, hvalidate⟩ := compile_of_compileShape hvalidator
  refine ⟨detail, hdetail, fun request => ?_⟩
  have hchecked : ∀ {brought},
      checkParameter request ⟨"body", .body, .ref "ServerDetail"⟩ validator = brought →
        bound.parameters.map (fun parameter =>
          checkParameter request parameter.1 parameter.2) = [brought] := by
    intro brought hbrought
    rw [hparameters, List.map_singleton, hbrought]
  have hmissing : request.body = none →
      bound.validateRequest request = .invalid [⟨[.key "body"], .missingParameter, []⟩] := by
    intro hbody
    exact validateRequest_of_rejects (hchecked (checkParameter_body_missing hbody)) (by simp)
  have hvalid : ∀ body document label?, request.body = some body →
      detail.validate body = .valid document label? →
        bound.validateRequest request = .valid (.obj [("body", document)]) none := by
    intro body document label? hbody hdocument
    rw [← hvalidate] at hdocument
    exact validateRequest_of_accepts (hchecked (checkParameter_body hbody hdocument)) rfl
  have hinvalid : ∀ body violations, request.body = some body →
      detail.validate body = .invalid violations →
        bound.validateRequest request = .invalid (violations.map fun violation =>
          { violation with path := .key "body" :: violation.path }) := by
    intro body violations hbody hviolations
    rw [← hvalidate] at hviolations
    have hbrought := hchecked (checkParameter_body_invalid hbody hviolations)
    rw [validateRequest_of_rejects hbrought, List.flatMap_singleton]
    · rfl
    · simpa using Validator.ne_nil_of_invalid hviolations
  refine ⟨?_, hmissing, hvalid, hinvalid⟩
  cases hbody : request.body with
  | none => simp [hmissing hbody, ValidationResult.isValid]
  | some body =>
      cases hresult : detail.validate body with
      | valid document label? =>
          simp [hvalid body document label? hbody hresult, hresult, ValidationResult.isValid]
      | invalid violations =>
          simp [hinvalid body violations hbody hresult, hresult, ValidationResult.isValid]

/-- No query takes a body. -/
theorem method_of_body : ∀ endpoint ∈ Endpoint.table, ∀ parameter ∈ endpoint.parameters,
    parameter.location = .body → endpoint.method ≠ .get := by
  decide

theorem value?_congr {other : RequestParts} (h : AgreeOn endpoint request other)
    (hendpoint : endpoint ∈ Endpoint.table) {parameter : Parameter}
    (hparameter : parameter ∈ endpoint.parameters) :
    request.value? parameter = other.value? parameter := by
  rw [RequestParts.value?, RequestParts.value?]
  cases hlocation : parameter.location with
  | path => exact congrArg (Option.map Json.str) (h.path parameter hparameter hlocation)
  | query =>
      exact congrArg (Option.map (queryValue parameter.shape))
        (h.query parameter hparameter hlocation)
  | body => exact h.body (method_of_body endpoint hendpoint parameter hparameter hlocation)

/-- What the operation does not declare is of no account. -/
theorem validateRequest_congr {other : RequestParts} (hendpoint : bound.endpoint ∈ Endpoint.table)
    (hbind : bind registry endpoint = .ok bound) (h : AgreeOn bound.endpoint request other) :
    bound.validateRequest request = bound.validateRequest other := by
  obtain ⟨rfl, hchecked⟩ := parameters_of_bind hbind
  have hsame : ∀ checked ∈ bound.parameters,
      checkParameter request checked.1 checked.2 = checkParameter other checked.1 checked.2 := by
    intro checked hmem
    obtain ⟨parameter, hparameter, hcompiled⟩ := Pairing.exists_of_mem_right hchecked hmem
    have hvalue := value?_congr h hendpoint hparameter
    rw [checkParameter, checkParameter, hcompiled.1, hvalue]
  rw [validateRequest, validateRequest, List.map_congr_left hsame]

end BoundEndpoint

namespace Registry

variable {registry : Registry} {bounds : List BoundEndpoint}

open BoundEndpoint

/-- What is bound are the operations of the table. -/
theorem bound_of_mem (h : registry.bindEndpoints = .ok bounds) {bound : BoundEndpoint}
    (hmem : bound ∈ bounds) :
    bound.endpoint ∈ Endpoint.table ∧ bind registry bound.endpoint = .ok bound := by
  obtain ⟨endpoint, hendpoint, hbind⟩ := Pairing.exists_of_mem_right (forall₂_of_mapM h) hmem
  rw [(parameters_of_bind hbind).1]
  exact ⟨hendpoint, hbind⟩

/-- By the operations of the table: those with values in the path ask for texts only. -/
theorem readsQuery_of_routes {bound : BoundEndpoint} (hmem : bound.endpoint ∈ Endpoint.table)
    (hbind : bind registry bound.endpoint = .ok bound) {path : String} {request : RequestParts}
    (hroutes : RequestMatch.Routes .get path ⟨bound.endpoint, request.path⟩) :
    bound.ReadsQuery request := by
  obtain ⟨-, hmethod, part, -, hfills⟩ := hroutes
  have hnames := hfills.names
  dsimp only at hmethod hnames
  generalize bound.endpoint = endpoint at hmem hbind hmethod hnames
  simp only [Endpoint.table, List.mem_cons, List.not_mem_nil, or_false] at hmem
  rcases hmem with rfl | rfl | rfl | rfl | rfl
  · exact absurd hmethod (by decide)
  · exact readsQuery_of_list hbind (List.map_eq_nil_iff.mp hnames)
  · exact readsQuery_of_path hbind rfl (by decide) rfl rfl hnames
  · exact readsQuery_of_path hbind rfl (by decide) rfl rfl hnames
  · exact readsQuery_of_path hbind rfl (by decide) rfl rfl hnames

/-- If the operations can be bound, a request that is routed to one of them is valid unless its
limit is no integer, and says what its path and its query say; a publication is valid if its body is
a server; and what an operation does not declare changes nothing. -/
theorem bindEndpoints_validateRequest (h : registry.bindEndpoints = .ok bounds) :
    bounds.map (·.endpoint) = Endpoint.table ∧
    (∀ bound ∈ bounds, ∀ path params,
      RequestMatch.find? .get path = some ⟨bound.endpoint, params⟩ →
        ∀ query body, bound.ReadsQuery ⟨params, query, body⟩) ∧
    (∃ detail, registry.compile "ServerDetail" = .ok detail ∧
      ∀ bound ∈ bounds, bound.endpoint = .publish → ∀ request, bound.TakesBody detail request) ∧
    ∀ bound ∈ bounds, ∀ request other, AgreeOn bound.endpoint request other →
      bound.validateRequest request = bound.validateRequest other := by
  have hbounds := forall₂_of_mapM h
  refine ⟨?_, fun bound hmem path params hfind query body => ?_, ?_,
    fun bound hmem request other hagree => ?_⟩
  · rw [← List.forall₂_eq_eq_eq, List.forall₂_map_left_iff]
    exact hbounds.flip.imp fun bound endpoint hbind => (parameters_of_bind hbind).1
  · obtain ⟨hendpoint, hbind⟩ := bound_of_mem h hmem
    exact readsQuery_of_routes hendpoint hbind
      ((RequestMatch.findAmong_eq_some_iff (List.Perm.refl _)).mp hfind)
  · obtain ⟨first, -, hfirst⟩ := Pairing.exists_of_mem_left hbounds (x := .publish) (by
      rw [Endpoint.table]
      exact List.mem_cons_self)
    obtain ⟨detail, hdetail, -⟩ := takesBody_of_publish hfirst
    refine ⟨detail, hdetail, fun bound hmem hpublish => ?_⟩
    obtain ⟨-, hbind⟩ := bound_of_mem h hmem
    rw [hpublish] at hbind
    obtain ⟨detail', hdetail', htakes⟩ := takesBody_of_publish hbind
    rwa [Except.ok.inj (hdetail.symm.trans hdetail')]
  · obtain ⟨hendpoint, hbind⟩ := bound_of_mem h hmem
    exact validateRequest_congr hendpoint hbind hagree

/-- Servers with a name, and answers that hold one or several. -/
def serverRegistry : Registry :=
  ⟨[⟨"ServerDetail", .obj [("type", .str "object"), ("required", .arr [.str "name"])],
      .object [("name", .unknown)] .passthrough⟩,
    ⟨"ServerResponse", .obj [("$ref", .str "#/components/schemas/ServerDetail")],
      .ref "ServerDetail"⟩,
    ⟨"ServerList", .obj [("type", .str "array"),
        ("items", .obj [("$ref", .str "#/components/schemas/ServerDetail")])],
      .array (.ref "ServerDetail")⟩]⟩

/-- A limit may have a sign, and a name that is not declared is passed over. -/
theorem bindEndpoints_validateRequest_list : ∃ bounds, serverRegistry.bindEndpoints = .ok bounds ∧
    ∀ bound ∈ bounds, bound.endpoint = .listServers →
      bound.validateRequest ⟨[], [("page", "2"), ("limit", "+5")], none⟩ =
        .valid (.obj [("limit", Json.int 5)]) none := by
  refine ⟨_, rfl, fun bound hmem hbound => ?_⟩
  have hfind : RequestMatch.find? .get "/v0/servers?limit=%2B5&page=2" =
      some ⟨bound.endpoint, []⟩ := by
    rw [hbound]
    rfl
  have hlimit : Number.WritesInt64 "+5" 5 := by
    have hdigits : Number.WritesNat ['5'] 5 := ⟨by simp, by simp, rfl⟩
    exact ⟨.plus hdigits, by decide, by decide⟩
  have hbinds : serverRegistry.bindEndpoints = .ok _ := rfl
  obtain ⟨-, hget, -, -⟩ := bindEndpoints_validateRequest hbinds
  rw [(hget bound hmem _ _ hfind _ _).valid (some 5) (by rw [hbound]; exact .some hlimit), hbound]
  rfl

/-- Without a body nothing is published, whatever else is sent. -/
example : (serverRegistry.bindEndpoints.toOption.bind (·.head?)).map
    (fun bound => (bound.validateRequest ⟨[("body", "x")], [("body", "y")], none⟩).isValid) =
      some false := by
  rfl

end Registry

end EntityContract
