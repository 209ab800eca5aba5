import EntityContract.Proofs.Shape.Keywords
import EntityContract.Proofs.Validator

/-!
What a keyword does that is written next to others. The first one decides alone: the others are not
enforced beside it. So a definition accepts no more than it does without one of its keywords exactly
if another keyword decides, or the rest of the definition accepts all that the keyword allows by
itself. Main statement: `compileShape_narrows_iff`.
-/

namespace EntityContract

/-- The other validator accepts every document that this one accepts. -/
def Validator.Narrows (validator other : Validator) : Prop :=
  ∀ value : Json, value.Proper → (validator.validate value).isValid = true →
    (other.validate value).isValid = true

theorem Json.Proper.erase {members : Members} (h : (Json.obj members).Proper) (name : String) :
    (Json.obj (Members.erase name members)).Proper := by
  refine Json.proper_obj.mpr ⟨h.nodup.sublist (List.filter_sublist.map _), fun member hmember => ?_⟩
  exact h.member (List.mem_of_mem_filter hmember)

theorem Json.same_text_iff {value : Json} {text : String} :
    value.same (.str text) = true ↔ value = .str text := by
  cases value with
  | str other => rw [same_str_iff, eq_comm]
  | _ => simp [same]

namespace Shape

theorem ofList_ok {keyword : String} {argument : Json} {shapes : List Shape}
    (h : ofList keyword argument = .ok shapes) : ∃ definitions, argument = .arr definitions ∧
      List.Forall₂ (fun definition shape => ofDefinition definition = .ok shape)
        definitions shapes := by
  cases argument with
  | arr definitions => exact ⟨definitions, rfl, ofDefinitions_ok h⟩
  | _ => exact nomatch h

/-- The values of a list of values, or of one value. -/
def Keyword.listed? (argument : Json) : Keyword → Option (List Json)
  | .const => some [argument]
  | .enum => argument.items?
  | _ => none

/-- The keywords that a definition is read by, those of types and objects included. -/
def asked : List String :=
  Keyword.all.map Keyword.name ++ ["type", "properties", "additionalProperties", "required"]

end Shape

namespace Registry

open Shape

variable {registry : Registry} {keyword : Keyword} {argument value : Json} {shape : Shape}

/-- The value satisfies the shape that the definition describes. -/
def Meets (registry : Registry) (definition value : Json) : Prop :=
  ∃ shape, ofDefinition definition = .ok shape ∧ registry.Satisfies shape value

/-- The value is one that the keyword by itself allows. -/
def Allows (registry : Registry) (argument value : Json) : Keyword → Prop
  | .ref => ∃ key, ofPointer argument = .ok (.ref key) ∧ registry.Satisfies (.ref key) value
  | .allOf => ∃ parts, argument = .arr parts ∧ ∀ part ∈ parts, registry.Meets part value
  | .anyOf | .oneOf => ∃ parts, argument = .arr parts ∧ ∃ part ∈ parts, registry.Meets part value
  | .const => value.same argument = true
  | .enum => ∃ items, argument = .arr items ∧ ∃ item ∈ items, value.same item = true

theorem allows_iff_of_listed {listed : List Json} (h : keyword.listed? argument = some listed) :
    registry.Allows argument value keyword ↔ ∃ item ∈ listed, value.same item = true := by
  cases keyword with
  | const =>
      cases h
      simp [Allows]
  | enum =>
      cases argument with
      | arr items =>
          cases h
          simp [Allows]
      | _ => exact nomatch h
  | _ => exact nomatch h

theorem satisfies_foldl_intersection_iff {first : Shape} {rest : List Shape} :
    registry.Satisfies (rest.foldl .intersection first) value ↔
      ∀ shape ∈ first :: rest, registry.Satisfies shape value := by
  induction rest generalizing first with
  | nil => simp
  | cons shape rest ih =>
      rw [List.foldl_cons, ih, List.forall_mem_cons, List.forall_mem_cons, List.forall_mem_cons,
        satisfies_intersection_iff, and_assoc]

section Lists

variable {definitions : List Json} {shapes : List Shape}
  (hshapes : List.Forall₂ (fun definition shape => ofDefinition definition = .ok shape)
    definitions shapes)

include hshapes

theorem forall_meets_iff : (∀ definition ∈ definitions, registry.Meets definition value) ↔
    ∀ shape ∈ shapes, registry.Satisfies shape value := by
  constructor
  · intro h shape hshape
    obtain ⟨definition, hdefinition, hok⟩ := Pairing.exists_of_mem_right hshapes hshape
    obtain ⟨other, hother, hvalue⟩ := h definition hdefinition
    rw [hok, Except.ok.injEq] at hother
    exact hother ▸ hvalue
  · intro h definition hdefinition
    obtain ⟨shape, hshape, hok⟩ := Pairing.exists_of_mem_left hshapes hdefinition
    exact ⟨shape, hok, h shape hshape⟩

theorem exists_meets_iff : (∃ definition ∈ definitions, registry.Meets definition value) ↔
    ∃ shape ∈ shapes, registry.Satisfies shape value := by
  constructor
  · rintro ⟨definition, hdefinition, other, hother, hvalue⟩
    obtain ⟨shape, hshape, hok⟩ := Pairing.exists_of_mem_left hshapes hdefinition
    rw [hok, Except.ok.injEq] at hother
    exact ⟨shape, hshape, hother ▸ hvalue⟩
  · rintro ⟨shape, hshape, hvalue⟩
    obtain ⟨definition, hdefinition, hok⟩ := Pairing.exists_of_mem_right hshapes hshape
    exact ⟨definition, hdefinition, shape, hok, hvalue⟩

end Lists

theorem satisfies_union_of_list {keyword : String} {shapes : List Shape}
    (h : ofList keyword argument = .ok shapes) :
    registry.Satisfies (.union shapes) value ↔
      ∃ parts, argument = .arr parts ∧ ∃ part ∈ parts, registry.Meets part value := by
  obtain ⟨parts, rfl, hshapes⟩ := ofList_ok h
  rw [satisfies_union_iff, ← exists_meets_iff hshapes]
  simp

theorem satisfies_ofEnum_iff (h : ofEnum argument = .ok shape) :
    registry.Satisfies shape value ↔
      ∃ items, argument = .arr items ∧ ∃ item ∈ items, value.same item = true := by
  have hitems : ∀ {items : List Json}, (∃ items', Json.arr items = .arr items' ∧
      ∃ item ∈ items', value.same item = true) ↔ ∃ item ∈ items, value.same item = true := by
    simp
  unfold ofEnum at h
  split at h
  · exact nomatch h
  · split at h
    · rename_i options hoptions
      cases h
      rw [Json.texts_of_mapM hoptions, hitems]
      constructor
      · intro hvalue
        cases hvalue with
        | enum htext => exact ⟨_, List.mem_map_of_mem htext, Json.same_text_iff.mpr rfl⟩
      · rintro ⟨item, hitem, hsame⟩
        obtain ⟨text, htext, rfl⟩ := List.mem_map.mp hitem
        rw [Json.same_text_iff.mp hsame]
        exact .enum htext
    · cases h
      rw [hitems, satisfies_union_iff]
      constructor
      · rintro ⟨variant, hvariant, hvalue⟩
        obtain ⟨item, hitem, rfl⟩ := List.mem_map.mp hvariant
        cases hvalue with
        | literal hsame => exact ⟨item, hitem, hsame⟩
      · rintro ⟨item, hitem, hsame⟩
        exact ⟨_, List.mem_map_of_mem hitem, .literal hsame⟩
  · exact nomatch h

/-- What the keyword describes is satisfied by the values that it allows. -/
theorem satisfies_keyword_iff (h : keyword.shape argument = .ok shape) :
    registry.Satisfies shape value ↔ registry.Allows argument value keyword := by
  cases keyword with
  | ref =>
      obtain ⟨key, rfl, -⟩ := ofPointer_ok h
      refine ⟨fun hvalue => ⟨key, h, hvalue⟩, ?_⟩
      rintro ⟨other, hother, hvalue⟩
      rw [Keyword.shape] at h
      rw [h] at hother
      cases hother
      exact hvalue
  | allOf =>
      obtain ⟨shapes, hshapes, hfold⟩ := bind_eq_ok_iff.mp h
      obtain ⟨parts, rfl, hparts⟩ := ofList_ok hshapes
      split at hfold
      · cases hfold
      · cases hfold
        rw [satisfies_foldl_intersection_iff, ← forall_meets_iff hparts]
        simp [Allows]
  | anyOf | oneOf =>
      obtain ⟨shapes, hshapes, hunion⟩ := bind_eq_ok_iff.mp h
      split at hunion
      · cases hunion
      · cases hunion
        exact satisfies_union_of_list hshapes
  | const =>
      cases h
      exact ⟨fun hvalue => by cases hvalue with | literal hsame => exact hsame, .literal⟩
  | enum => exact satisfies_ofEnum_iff h

theorem compileShape_isValid_iff {validator : Validator} (hregistry : registry.Indexed)
    (hshape : shape.WellFormed) (h : registry.compileShape shape = .ok validator) (value : Json) :
    (validator.validate value).isValid = true ↔ registry.Satisfies shape value :=
  ((checks_of_compileShape h).isValid_iff hregistry hshape.present value).trans
    satisfies_present_iff

/-- Whether a validator accepts all listed values can be told from these alone. -/
theorem forall_listed_iff {validator : Validator} (hregistry : registry.Indexed)
    (hshape : shape.WellFormed) (hvalidator : registry.compileShape shape = .ok validator)
    (hargument : argument.Proper) {listed : List Json}
    (hlisted : keyword.listed? argument = some listed) :
    (∀ value : Json, value.Proper → registry.Allows argument value keyword →
      (validator.validate value).isValid = true) ↔
        ∀ item ∈ listed, (validator.validate item).isValid = true := by
  have hproper : ∀ item ∈ listed, item.Proper := by
    intro item hitem
    cases keyword with
    | const =>
        cases hlisted
        rwa [List.mem_singleton.mp hitem]
    | enum =>
        cases argument with
        | arr items =>
            cases hlisted
            exact hargument.item hitem
        | _ => exact nomatch hlisted
    | _ => exact nomatch hlisted
  simp only [allows_iff_of_listed hlisted, compileShape_isValid_iff hregistry hshape hvalidator]
  constructor
  · exact fun h item hitem =>
      h item (hproper item hitem) ⟨item, hitem, Json.same_refl (hproper item hitem)⟩
  -- A value that is the same as a listed one need not be equal to it: numbers may be written apart.
  · rintro h value hvalue ⟨item, hitem, hsame⟩
    exact (h item hitem).of_same_value (hproper item hitem) hvalue
      (Json.same_symm hvalue (hproper item hitem) hsame)

/-- Without a keyword that stands alone, all values are described. -/
theorem ofDefinition_erase_alone {members : Members}
    (h : ∀ key ∈ members.map (·.1), key ∈ asked → key = keyword.name) :
    ofDefinition (.obj (Members.erase keyword.name members)) = .ok .unknown := by
  have hnone : ∀ key ∈ asked, (Members.erase keyword.name members).lookup key = none := by
    intro key hkey
    by_cases heq : key = keyword.name
    · rw [heq, Members.lookup_erase_self]
    · rw [Members.lookup_erase_of_ne heq, Association.lookup_eq_none_iff]
      exact fun hmem => heq (h key hmem hkey)
  have hcontains : ∀ key ∈ asked,
      Members.contains key (Members.erase keyword.name members) = false :=
    fun key hkey => Members.contains_eq_false_iff.mpr
      (Association.lookup_eq_none_iff.mp (hnone key hkey))
  apply ofDefinition_of_no_keyword
  · refine List.findSome?_eq_none_iff.mpr fun other hother => ?_
    rw [hnone other.name (List.mem_append_left _ (List.mem_map_of_mem hother))]
    rfl
  · exact hnone "type" (by decide)
  · rw [isObjectDefinition, hcontains "properties" (by decide),
      hcontains "additionalProperties" (by decide), hcontains "required" (by decide)]
    rfl

/-- The first keyword decides what is accepted, whatever else is written. So with another keyword a
definition accepts the same with and without it, and with this one it accepts no more exactly if
the rest of the definition accepts what the keyword allows; of values that are listed this can be
asked one by one, and a keyword that stands alone only narrows. -/
theorem compileShape_narrows_iff {entries : List (String × Json)}
    (hproper : ∀ entry ∈ entries, entry.2.Proper) (hentries : ofEntries entries = .ok registry)
    {members : Members} (hmembers : (Json.obj members).Proper)
    (hargument : members.lookup keyword.name = some argument) {rest : Shape}
    (hshape : ofDefinition (.obj members) = .ok shape)
    (hrest : ofDefinition (.obj (Members.erase keyword.name members)) = .ok rest)
    {validator other : Validator} (hvalidator : registry.compileShape shape = .ok validator)
    (hother : registry.compileShape rest = .ok other) :
    ∃ first found, Keyword.first? members = some (first, found) ∧
      (∀ value, (validator.validate value).isValid = true ↔ registry.Allows found value first) ∧
      (first ≠ keyword → rest = shape) ∧
      (validator.Narrows other ↔ first ≠ keyword ∨
        ∀ value : Json, value.Proper → registry.Allows argument value keyword →
          (other.validate value).isValid = true) ∧
      (∀ listed, keyword.listed? argument = some listed →
        (validator.Narrows other ↔ first ≠ keyword ∨
          ∀ item ∈ listed, (other.validate item).isValid = true)) ∧
      ((∀ key ∈ members.map (·.1), key ∈ asked → key = keyword.name) →
        validator.Narrows other) := by
  have hregistry := indexed_of_ofEntries hproper hentries
  have hshapeWell := wellFormed_ofDefinition hmembers hshape
  have hrestWell := wellFormed_ofDefinition (hmembers.erase keyword.name) hrest
  obtain ⟨first, found, hfirst⟩ := Keyword.exists_first? hargument
  have hdecides := ofDefinition_of_first? hfirst
  rw [hshape] at hdecides
  have haccepts : ∀ value, (validator.validate value).isValid = true ↔
      registry.Allows found value first := fun value =>
    (compileShape_isValid_iff hregistry hshapeWell hvalidator value).trans
      (satisfies_keyword_iff hdecides.symm)
  have hdropped : first ≠ keyword → rest = shape := by
    intro hne
    have hdecides' := ofDefinition_of_first? (Keyword.first?_erase hfirst hne)
    rw [hrest, ← hdecides, Except.ok.injEq] at hdecides'
    exact hdecides'
  have hnarrows : validator.Narrows other ↔ first ≠ keyword ∨
      ∀ value : Json, value.Proper → registry.Allows argument value keyword →
        (other.validate value).isValid = true := by
    by_cases hne : first = keyword
    · subst hne
      have hfound := Keyword.lookup_of_first? hfirst
      rw [hargument, Option.some.injEq] at hfound
      subst hfound
      simp only [Validator.Narrows, haccepts, ne_eq, not_true_eq_false, false_or]
    · refine iff_of_true (fun value _ hvalue => ?_) (Or.inl hne)
      rw [hdropped hne, hvalidator, Except.ok.injEq] at hother
      rwa [← hother]
  refine ⟨first, found, hfirst, haccepts, hdropped, hnarrows, fun listed hlisted => ?_, ?_⟩
  · rw [hnarrows, forall_listed_iff hregistry hrestWell hother (hmembers.lookup hargument) hlisted]
  · intro halone value _ _
    rw [ofDefinition_erase_alone halone, Except.ok.injEq] at hrest
    rw [compileShape_isValid_iff hregistry hrestWell hother, ← hrest]
    exact .unknown value

/-- A text that is one of two. -/
def levelMembers : Members :=
  [("type", .str "string"), ("enum", .arr [.str "low", .str "high"])]

def levelValidator : Validator := ⟨⟨#[.enum ["low", "high"]]⟩, 0, none⟩

def textValidator : Validator := ⟨⟨#[.string .any]⟩, 0, none⟩

theorem compileShape_narrows_iff_level : levelValidator.Narrows textValidator := by
  have hmembers : (Json.obj levelMembers).Proper := by
    simp [levelMembers]
  have hargument : levelMembers.lookup Keyword.enum.name =
      some (.arr [.str "low", .str "high"]) := by
    rfl
  have hshape : ofDefinition (.obj levelMembers) = .ok (.enum ["low", "high"]) := by
    rfl
  have hrest : ofDefinition (.obj (Members.erase Keyword.enum.name levelMembers)) =
      .ok (.string .any) := by
    rfl
  have hentries : ofEntries [] = .ok ⟨[]⟩ := by rfl
  have hvalidator : (Registry.mk []).compileShape (.enum ["low", "high"]) = .ok levelValidator := by
    rfl
  have hother : (Registry.mk []).compileShape (.string .any) = .ok textValidator := by rfl
  obtain ⟨_, _, -, -, -, -, hlisted, -⟩ := compileShape_narrows_iff (List.forall_mem_nil _) hentries
    hmembers hargument hshape hrest hvalidator hother
  refine (hlisted _ rfl).mpr (Or.inr fun item hitem => ?_)
  obtain ⟨text, -, rfl⟩ := List.mem_map.mp (show item ∈ ["low", "high"].map Json.str from hitem)
  rfl

/-- An endpoint with a name, and with a URL or a path. -/
def endpointMembers : Members :=
  [("type", .str "object"), ("properties", .obj [("name", .obj [("type", .str "string")])]),
    ("required", .arr [.str "name"]), ("anyOf", .arr [.obj [("required", .arr [.str "url"])],
      .obj [("required", .arr [.str "path"])]])]

/-- The name of an endpoint is not asked for, as `anyOf` decides. Without it the name is. -/
theorem not_narrows_endpoint :
    ∃ shape rest validator other, ofEntries [] = .ok ⟨[]⟩ ∧
      ofDefinition (.obj endpointMembers) = .ok shape ∧
      ofDefinition (.obj (Members.erase "anyOf" endpointMembers)) = .ok rest ∧
      (Registry.mk []).compileShape shape = .ok validator ∧
      (Registry.mk []).compileShape rest = .ok other ∧
      (validator.validate (.obj [("url", .str "x")])).isValid = true ∧
      (other.validate (.obj [("url", .str "x")])).isValid = false := by
  have hshape : ofDefinition (.obj endpointMembers) = .ok (.union
      [.object [("url", .unknown)] .passthrough, .object [("path", .unknown)] .passthrough]) := by
    rfl
  have hrest : ofDefinition (.obj (Members.erase "anyOf" endpointMembers)) =
      .ok (.object [("name", .string .any)] .passthrough) := by
    rfl
  exact ⟨_, _, _, _, rfl, hshape, hrest, rfl, rfl, rfl, rfl⟩

end Registry

end EntityContract
