import EntityContract.Model.Parse
import EntityContract.Proofs.Model.Server
import EntityContract.Proofs.Validation.Normalizing
import EntityContract.Proofs.Validator

/-!
Documents that the bundled schema of servers accepts are always read. What is written again of what
is read is the normalized document, unless an argument of a package is miswritten.
-/

namespace EntityContract

theorem exists_ok_of_any {ε α : Type} {result : Except ε α} {p : α → Bool}
    (h : result.toOption.any p = true) : ∃ a, result = .ok a ∧ p a = true := by
  cases result with
  | ok a => exact ⟨a, rfl, h⟩
  | error error => exact nomatch h

theorem exists_ok_of_isSome {ε α : Type} {result : Except ε α}
    (h : result.toOption.isSome = true) : ∃ a, result = .ok a := by
  cases result with
  | ok a => exact ⟨a, rfl⟩
  | error error => exact nomatch h

namespace Validator

theorem parse_of_decode {α : Type} {validator : Validator} {decode : Decoder α}
    {document output : Json} {label? : Option String} {a : α}
    (hvalid : validator.validate document = .valid output label?)
    (hdecode : decode output = .ok a) : validator.parse decode document = .ok a := by
  rw [parse, hvalid]
  dsimp only
  rw [hdecode]
  rfl

theorem parse_of_decode_error {α : Type} {validator : Validator} {decode : Decoder α}
    {document output : Json} {label? : Option String} {cause : DecodeError}
    (hvalid : validator.validate document = .valid output label?)
    (hdecode : decode output = .error cause) :
    validator.parse decode document = .error (.decode cause) := by
  rw [parse, hvalid]
  dsimp only
  rw [hdecode]
  rfl

/-- What the validator of an entity makes of a document is what the entity makes of it. -/
theorem normalizes_of_compile {registry : Registry} {validator : Validator} {key : String}
    (hregistry : registry.Indexed) (hcompile : registry.compile key = .ok validator)
    {document output : Json} {label? : Option String} (hdocument : document.Proper)
    (hvalid : validator.validate document = .valid output label?) :
    registry.Normalizes (.ref key) document output ∧ output.Proper := by
  have haccepts := isValid_validate_iff.mp (congrArg ValidationResult.isValid hvalid)
  have hwell := Registry.wellFormed_ref key
  obtain ⟨labels, harena, hroot⟩ := Registry.checks_of_compile hcompile
  rw [← output_of_validate hvalid]
  exact ⟨Walk.check_normalizes hregistry harena document _ [] hroot hwell haccepts,
    Walk.check_proper hregistry harena document _ [] hroot hwell hdocument⟩

end Validator

namespace ServerDetail

/-- Every document that the validator of server details accepts is read. An argument of it is read
as a named one if the validator of named arguments accepts it, or if its type is miswritten. If none
is miswritten, what is written of the server is the normalized document. -/
theorem parse_of_validate {registry : Registry} {validator namedValidator : Validator}
    (hregistry : SchemaDocument.bundled.registry = .ok registry)
    (hcompile : registry.compile "ServerDetail" = .ok validator)
    (hnamed : registry.compile "NamedArgument" = .ok namedValidator)
    {document output : Json} {label? : Option String} (hdocument : document.Proper)
    (hvalid : validator.validate document = .valid output label?) :
    ∃ detail, validator.parse ServerDetail.decode document = .ok detail ∧
      (∀ package list index, Option.Rel (fun value argument => argument.isNamed = true ↔
          (namedValidator.validate value).isValid = true ∨ value.MiswrittenArgument)
        (document.argument? package list index) (detail.argument? package list index)) ∧
      ((∀ package list index value, document.argument? package list index = some value →
          ¬value.MiswrittenArgument) → detail.encode.same output = true) := by
  obtain rfl := Except.ok.inj (Bundled.registry_bundled.symm.trans hregistry)
  obtain ⟨hnormalizes, hproper⟩ :=
    Validator.normalizes_of_compile Bundled.indexed hcompile hdocument hvalid
  have hclean : (∀ package list index value, document.argument? package list index = some value →
      ¬value.MiswrittenArgument) → ∀ packages, document.get? "packages" = some (.arr packages) →
        ∀ package ∈ packages, ∀ (list : Package.ArgumentList) items,
          package.get? list.name = some (.arr items) →
            ∀ part ∈ items, ¬part.MiswrittenArgument := by
    intro hclean packages hpackages package hpackage list items hitems part hpart
    obtain ⟨position, hposition⟩ := List.mem_iff_getElem?.mp hpackage
    obtain ⟨index, hindex⟩ := List.mem_iff_getElem?.mp hpart
    apply hclean position list index part
    simp only [argument?_eq, hpackages, hitems, Option.bind_some, Json.at?, hposition, hindex]
  obtain ⟨detail, hkeeps, hread⟩ := ServerDetail.keeps hnormalizes hdocument hproper hclean
  refine ⟨detail, Validator.parse_of_decode hvalid hkeeps.reads, fun package list index => ?_,
    hkeeps.writes⟩
  have hargument := argument?_readFrom hread package list index
  have hschema := (Registry.checks_of_compile hnamed).isValid_iff Bundled.indexed
    (Registry.wellFormed_ref "NamedArgument")
  simpa only [Argument.ReadFrom, ← hschema] using hargument

/-- A server with a package that takes an argument of either kind. -/
def portDocument (type : Json) : Json :=
  .obj [("name", .str "files"), ("description", .str "Serves files"), ("version", .str "1.0.0"),
    ("stars", .num (.int 3)), ("packages", .arr [.obj [("registryType", .str "npm"),
      ("identifier", .str "files"), ("version", .str "1.0.0"),
      ("runtimeArguments", .arr [.obj [("value", .str "/srv"), ("valueHint", .str "root")]]),
      ("packageArguments", .arr [.obj [("type", type), ("name", .str "--port")]])]])]

theorem lookup_type_of_portDocument {type : Json} {package index : Nat}
    {list : Package.ArgumentList} {members : Members}
    (h : (portDocument type).argument? package list index = some (.obj members)) :
    members.lookup "type" = none ∨ members.lookup "type" = some type := by
  rw [argument?_eq] at h
  cases package with
  | zero =>
      cases index with
      | zero =>
          cases list with
          | runtime =>
              cases h
              exact Or.inl rfl
          | package =>
              cases h
              exact Or.inr rfl
      | succ index => cases list <;> exact nomatch h
  | succ package => exact nomatch h

theorem parse_of_validate_port :
    ∃ validator namedValidator output label? detail,
      Bundled.registry.compile "ServerDetail" = .ok validator ∧
        Bundled.registry.compile "NamedArgument" = .ok namedValidator ∧
          validator.validate (portDocument (.str "named")) = .valid output label? ∧
            validator.parse ServerDetail.decode (portDocument (.str "named")) = .ok detail ∧
              detail.encode.same output = true := by
  have hvalidates : (Bundled.registry.compile "ServerDetail").toOption.any (fun validator =>
      (validator.validate (portDocument (.str "named"))).isValid) = true := by decide +kernel
  have hcompiles : (Bundled.registry.compile "NamedArgument").toOption.isSome = true := by
    decide +kernel
  obtain ⟨validator, hcompile, hvalid⟩ := exists_ok_of_any hvalidates
  obtain ⟨namedValidator, hnamed⟩ := exists_ok_of_isSome hcompiles
  obtain ⟨label?, hvalid⟩ := Validator.exists_validate_of_isValid hvalid
  have hdocument : (portDocument (.str "named")).Proper := by
    simp [portDocument]
  obtain ⟨detail, hparse, -, hwritten⟩ :=
    parse_of_validate Bundled.registry_bundled hcompile hnamed hdocument hvalid
  refine ⟨validator, namedValidator, _, label?, detail, hcompile, hnamed, hvalid, hparse,
    hwritten fun package list index value hargument hmiswritten => ?_⟩
  obtain ⟨members, name, rfl, htype, -⟩ := hmiswritten
  rcases lookup_type_of_portDocument hargument with hnone | hsome
  · rw [htype] at hnone
    exact nomatch hnone
  · rw [htype] at hsome
    exact nomatch hsome

/-- With the type of the argument spelled as an object, the argument is read as a named one that
its schema rejects, and it is written with another type. -/
theorem parse_miswritten_port :
    ∃ validator namedValidator value output label? detail argument,
      Bundled.registry.compile "ServerDetail" = .ok validator ∧
        Bundled.registry.compile "NamedArgument" = .ok namedValidator ∧
          validator.validate (portDocument (.obj [("named", .null)])) = .valid output label? ∧
            validator.parse decode (portDocument (.obj [("named", .null)])) = .ok detail ∧
              (portDocument (.obj [("named", .null)])).argument? 0 .package 0 = some value ∧
                detail.argument? 0 .package 0 = some argument ∧
                  (argument.isNamed = true ∧ (namedValidator.validate value).isValid = false) ∧
                    detail.encode.same output = false := by
  have hruns : (Bundled.registry.compile "ServerDetail").toOption.any (fun validator =>
      (validator.validate (portDocument (.obj [("named", .null)]))).isValid &&
        (validator.parse decode (portDocument (.obj [("named", .null)]))).toOption.any fun detail =>
          (detail.argument? 0 .package 0).any (·.isNamed) &&
            !detail.encode.same (Walk.check validator.arena (portDocument (.obj [("named", .null)]))
              validator.root []).output) = true := by decide +kernel
  have hrejects : (Bundled.registry.compile "NamedArgument").toOption.any (fun validator =>
      !(validator.validate (.obj [("type", .obj [("named", .null)]),
        ("name", .str "--port")])).isValid) = true := by decide +kernel
  obtain ⟨validator, hcompile, hruns⟩ := exists_ok_of_any hruns
  obtain ⟨namedValidator, hnamed, hrejects⟩ := exists_ok_of_any hrejects
  rw [Bool.and_eq_true] at hruns
  obtain ⟨label?, hvalid⟩ := Validator.exists_validate_of_isValid hruns.1
  obtain ⟨detail, hparse, hread⟩ := exists_ok_of_any hruns.2
  rw [Bool.and_eq_true, Option.any_eq_true, Bool.not_eq_true'] at hread
  obtain ⟨⟨argument, hargument, hisNamed⟩, hwritten⟩ := hread
  rw [Bool.not_eq_true'] at hrejects
  exact ⟨validator, namedValidator, _, _, label?, detail, argument, hcompile, hnamed, hvalid,
    hparse, rfl, hargument, ⟨hisNamed, hrejects⟩, hwritten⟩

end ServerDetail

end EntityContract
