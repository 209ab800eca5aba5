import EntityContract.Proofs.Model.Parsing

/-!
Lists of servers, as a registry answers with them. Everything in an accepted list is read but for
one field: the count of the page is any whole number in the schema and a signed integer of 64 bits
in the record. A count beyond these integers is what is reported, whatever else the list holds.
-/

namespace EntityContract

open Bundled

/-- A whole number beyond the signed integers of 64 bits, written as an unsigned integer or as a
float. -/
inductive Number.Oversized : Number → Prop
  | unsigned {value : Int} : Int.pow 2 63 ≤ value → Oversized (.int value)
  | float {x : Binary64} {value : Int} : x.toInt? = some value →
      ¬(-Int.pow 2 63 ≤ value ∧ value < Int.pow 2 63) → Oversized (.float x)

namespace Number

/-- What is not oversized becomes a signed integer. -/
theorem exists_normalize {n : Number} (hwhole : n.isWhole = true) (hfits : ¬n.Oversized) :
    ∃ value, n.normalize = .int value ∧ value < Int.pow 2 63 := by
  cases n with
  | int value => exact ⟨value, rfl, not_le.mp fun hle => hfits (.unsigned hle)⟩
  | float x =>
      obtain ⟨value, hvalue⟩ := Option.isSome_iff_exists.mp hwhole
      have hrange : -Int.pow 2 63 ≤ value ∧ value < Int.pow 2 63 :=
        not_not.mp fun hrange => hfits (.float hvalue hrange)
      refine ⟨value, ?_, hrange.2⟩
      simp only [normalize, hvalue, if_pos hrange]

/-- What is oversized stays as it is, and is no signed integer. -/
theorem Oversized.normalize_eq {n : Number} (h : n.Oversized) : n.normalize = n := by
  cases h with
  | unsigned => rfl
  | float hvalue hrange => simp only [normalize, hvalue, if_neg hrange]

theorem Oversized.integer_eq {n : Number} (h : n.Oversized) :
    ∃ cause, Decoder.integer (.num n) = .error cause := by
  cases h with
  | unsigned hle => exact ⟨_, if_neg (not_lt.mpr hle)⟩
  | float => exact ⟨_, rfl⟩

end Number

variable {faithful : Prop} {value output : Json}

namespace Decoder

theorem keeps_integer (h : Bundled.registry.Normalizes .integer value output)
    (hfits : ∀ n, value = .num n → ¬n.Oversized) : ∃ a, integer.Keeps faithful .int output a := by
  cases h with
  | @integer n hwhole =>
      obtain ⟨a, ha, hlt⟩ := Number.exists_normalize hwhole (hfits n rfl)
      rw [ha]
      exact ⟨a, if_pos hlt, fun _ => Json.same_refl (Json.proper_num _)⟩
  | object _ hflattens => cases hflattens

/-- A point in time is read as the schema reads it, but it may be written in another form. -/
theorem keeps_timestamp (h : Bundled.registry.Normalizes (.string .dateTime) value output) :
    ∃ time, timestamp.Keeps False (fun time => .str time.text) output time := by
  cases h with
  | @string _ text hformat =>
      simp only [StringFormat.problem?] at hformat
      split at hformat
      · rename_i time htime
        refine ⟨time, ?_, False.elim⟩
        simp only [timestamp, htime]
      · cases hformat
  | object _ hflattens => cases hflattens

end Decoder

/-- An oversized member is left as it is. -/
theorem Registry.NormalizesMembers.lookup_oversized {object : ObjectShape}
    {members outputs : Members} (h : Bundled.registry.NormalizesMembers object members outputs)
    {name : String} (hfield : object.fields.lookup name = some (.optional .integer none))
    {n : Number} (hlookup : members.lookup name = some (.num n)) (hn : n.Oversized) :
    outputs.lookup name = some (.num n) := by
  rcases h.declared hfield with ⟨value, output, hvalue, houtput, hinteger⟩ | ⟨hnone, -, -⟩
  · obtain rfl := Option.some.inj (hlookup.symm.trans hvalue)
    cases hinteger with
    | integer => rw [houtput, hn.normalize_eq]
  · rw [hnone] at hlookup
    exact nomatch hlookup

theorem ServerStatus.keeps
    (h : Bundled.registry.Normalizes (.enum ["active", "deprecated", "deleted"]) value output) :
    ∃ status, ServerStatus.decode.Keeps faithful ServerStatus.encode output status :=
  Decoder.keeps_variant h (by simp [ServerStatus.encode])

theorem OfficialMeta.keeps
    (h : Bundled.registry.Normalizes (.object officialFields .passthrough) value output)
    (hproper : output.Proper) :
    ∃ metadata, OfficialMeta.decode.Keeps False OfficialMeta.encode output metadata := by
  obtain ⟨members, outputs, rfl, rfl, hmembers⟩ := h.of_flattens indexed (.object _ _)
  obtain ⟨status, hstatus⟩ :=
    FieldReader.keeps_required False "status" hmembers hproper rfl rfl
      fun _ _ _ => ServerStatus.keeps
  obtain ⟨publishedAt, hpublishedAt⟩ :=
    FieldReader.keeps_required False "publishedAt" hmembers hproper rfl rfl
      fun _ _ _ => Decoder.keeps_timestamp
  obtain ⟨updatedAt, hupdatedAt⟩ :=
    FieldReader.keeps_required False "updatedAt" hmembers hproper rfl rfl
      fun _ _ _ => Decoder.keeps_timestamp
  obtain ⟨isLatest, hisLatest⟩ :=
    FieldReader.keeps_required False "isLatest" hmembers hproper rfl rfl
      fun _ _ _ => Decoder.keeps_flag
  have hkeeps := ((((hstatus.map OfficialMeta.mk).seq hpublishedAt).seq hupdatedAt).seq
    hisLatest).seq (FieldReader.keeps_extra False
      ["status", "publishedAt", "updatedAt", "isLatest"] outputs)
  exact ⟨_, Decoder.keeps_structured hproper hkeeps.run rfl False.elim⟩

theorem ResponseMeta.keeps
    (h : Bundled.registry.Normalizes (.object [maybe officialMetaKey
      (.object officialFields .passthrough)] .passthrough) value output)
    (hproper : output.Proper) :
    ∃ metadata, ResponseMeta.decode.Keeps False ResponseMeta.encode output metadata := by
  obtain ⟨members, outputs, rfl, rfl, hmembers⟩ := h.of_flattens indexed (.object _ _)
  obtain ⟨official, hofficial⟩ :=
    FieldReader.keeps_optional False officialMetaKey hmembers hproper rfl rfl nofun
      fun _ _ hproper h => OfficialMeta.keeps h hproper
  have hkeeps := (hofficial.map ResponseMeta.mk).seq
    (FieldReader.keeps_extra False [officialMetaKey] outputs)
  exact ⟨_, Decoder.keeps_structured hproper hkeeps.run rfl False.elim⟩

theorem ServerResponse.keeps (h : Bundled.registry.Normalizes (.ref "ServerResponse") value output)
    (hvalue : value.Proper) (hproper : output.Proper) :
    ∃ response, ServerResponse.decode.Keeps False ServerResponse.encode output response := by
  obtain ⟨members, outputs, rfl, rfl, hmembers⟩ := h.of_flattens indexed flattens_serverResponse
  obtain ⟨server, hserver⟩ :=
    FieldReader.keeps_required_from False "server" hmembers hproper rfl rfl
      fun value _ hlookup hproper h => by
        obtain ⟨detail, hdetail, -⟩ :=
          ServerDetail.keeps h (hvalue.lookup hlookup) hproper False.elim
        exact ⟨detail, hdetail⟩
  obtain ⟨metadata, hmetadata⟩ :=
    FieldReader.keeps_optional False "_meta" hmembers hproper rfl rfl nofun
      fun _ _ hproper h => ResponseMeta.keeps h hproper
  have hkeeps := ((hserver.map ServerResponse.mk).seq hmetadata).seq
    (FieldReader.keeps_extra False ["server", "_meta"] outputs)
  exact ⟨_, Decoder.keeps_structured hproper hkeeps.run rfl False.elim⟩

namespace ListMetadata

/-- What the schema says about the part of a list that holds its count. -/
def shape : Shape := .object [maybe "nextCursor" text, maybe "count" .integer] .passthrough

theorem keeps (h : Bundled.registry.Normalizes shape value output) (hproper : output.Proper)
    (hfits : ∀ n, value.get? "count" = some (.num n) → ¬n.Oversized) :
    ∃ metadata, ListMetadata.decode.Keeps faithful ListMetadata.encode output metadata := by
  obtain ⟨members, outputs, rfl, rfl, hmembers⟩ := h.of_flattens indexed (.object _ _)
  obtain ⟨nextCursor, hnextCursor⟩ :=
    FieldReader.keeps_optional_text True "nextCursor" hmembers hproper rfl
  obtain ⟨count, hcount⟩ :=
    FieldReader.keeps_optional_from True "count" hmembers hproper rfl rfl nofun
      fun _ _ hlookup _ h => Decoder.keeps_integer h fun n heq => hfits n (heq ▸ hlookup)
  have hkeeps := ((hnextCursor.map ListMetadata.mk).seq hcount).seq
    (FieldReader.keeps_extra True ["nextCursor", "count"] outputs)
  have hwrites := hkeeps.writes_extra ["nextCursor", "count"] hproper rfl (by decide) trivial
  refine ⟨_, Decoder.keeps_structured hproper hkeeps.run rfl fun _ => ?_⟩
  simpa [Members.ofPieces_cons_some, Members.ofPieces_cons_map] using hwrites

/-- An oversized count is left as it is, and it is what is bad then. -/
theorem decode_eq_error (h : Bundled.registry.Normalizes shape value output)
    (hproper : output.Proper) {n : Number} (hcount : value.get? "count" = some (.num n))
    (hoversized : n.Oversized) {cause : DecodeError}
    (hcause : Decoder.integer (.num n) = .error cause) :
    ListMetadata.decode output = .error cause := by
  obtain ⟨members, outputs, rfl, rfl, hmembers⟩ := h.of_flattens indexed (.object _ _)
  obtain ⟨nextCursor, hnextCursor⟩ :=
    FieldReader.keeps_optional_text False "nextCursor" hmembers hproper rfl
  have hlookup : outputs.lookup "count" = some (.num n) :=
    hmembers.lookup_oversized rfl hcount hoversized
  have hfails := ((hnextCursor.map ListMetadata.mk).seq_fails
    (FieldReader.fails_optional hlookup nofun hcause)).seq
      (FieldReader.keeps_extra False ["nextCursor", "count"] outputs)
  exact hfails.run (List.mem_map_of_mem (Association.mem_of_lookup hlookup))

end ListMetadata

theorem ServerResponse.keeps_list
    (h : Bundled.registry.Normalizes (.array (.ref "ServerResponse")) value output)
    (hvalue : value.Proper) (hproper : output.Proper) :
    ∃ responses, (Decoder.list ServerResponse.decode).Keeps False
      (Encode.list ServerResponse.encode) output responses := by
  obtain ⟨responses, hresponses, -⟩ := Decoder.keeps_list_rel (r := fun _ _ => True) False h hproper
    fun items heq part hpart _ hproper h => by
      obtain ⟨response, hresponse⟩ :=
        ServerResponse.keeps h (hvalue.part (heq ▸ .item hpart)) hproper
      exact ⟨response, hresponse, trivial⟩
  exact ⟨responses, hresponses⟩

/-- What a list of servers says about how many there are. -/
def Json.count? (document : Json) : Option Json :=
  (document.get? "metadata").bind (·.get? "count")

namespace ServerList

section Reading

variable {members outputs : Members}
  (h : Bundled.registry.NormalizesMembers ⟨listFields, .passthrough⟩ members outputs)
  (hvalue : (Json.obj members).Proper) (hproper : (Json.obj outputs).Proper)

include h hvalue hproper

theorem keeps_servers : ∃ servers,
    (FieldReader.required "servers" (.list ServerResponse.decode)).Keeps False outputs servers
      [("servers", some (Encode.list ServerResponse.encode servers))] :=
  FieldReader.keeps_required_from False "servers" h hproper rfl rfl
    fun _ _ hlookup hproper h => ServerResponse.keeps_list h (hvalue.lookup hlookup) hproper

theorem decode_eq_ok (hfits : ∀ n, (Json.obj members).count? = some (.num n) → ¬n.Oversized) :
    ∃ list, ServerList.decode (.obj outputs) = .ok list := by
  obtain ⟨servers, hservers⟩ := keeps_servers h hvalue hproper
  obtain ⟨metadata, hmetadata⟩ :=
    FieldReader.keeps_optional_from False "metadata" h hproper rfl rfl nofun
      fun value _ hlookup hproper h => ListMetadata.keeps h hproper fun n hcount =>
        hfits n (Option.bind_eq_some_iff.mpr ⟨value, hlookup, hcount⟩)
  have hkeeps := ((hservers.map ServerList.mk).seq hmetadata).seq
    (FieldReader.keeps_extra False ["servers", "metadata"] outputs)
  exact ⟨_, hkeeps.run⟩

theorem decode_eq_error {n : Number} (hcount : (Json.obj members).count? = some (.num n))
    (hn : n.Oversized) {cause : DecodeError} (hcause : Decoder.integer (.num n) = .error cause) :
    ServerList.decode (.obj outputs) = .error cause := by
  obtain ⟨servers, hservers⟩ := keeps_servers h hvalue hproper
  obtain ⟨value, hlookup, hcount⟩ := Option.bind_eq_some_iff.mp hcount
  have hfield : listFields.lookup "metadata" = some (.optional ListMetadata.shape none) := rfl
  rcases h.declared hfield with ⟨value', output, hlookup', houtput, h⟩ | ⟨hnone, -, -⟩
  · obtain rfl := Option.some.inj (hlookup.symm.trans hlookup')
    have hdecode := ListMetadata.decode_eq_error h (hproper.lookup houtput) hcount hn hcause
    obtain ⟨-, metadata, -, rfl, -⟩ := h.of_flattens indexed (.object _ _)
    have hfails := ((hservers.map ServerList.mk).seq_fails
      (FieldReader.fails_optional houtput nofun hdecode)).seq
        (FieldReader.keeps_extra False ["servers", "metadata"] outputs)
    exact hfails.run (List.mem_map_of_mem (Association.mem_of_lookup houtput))
  · exact nomatch hnone.symm.trans hlookup

end Reading

/-- Every document that the validator of server lists accepts is read, unless its count is
oversized. An oversized count is what is reported. -/
theorem parse_of_count {registry : Registry} {validator : Validator}
    (hregistry : SchemaDocument.bundled.registry = .ok registry)
    (hcompile : registry.compile "ServerList" = .ok validator)
    {document output : Json} {label? : Option String} (hdocument : document.Proper)
    (hvalid : validator.validate document = .valid output label?) :
    ((∃ list, validator.parse ServerList.decode document = .ok list) ↔
        ∀ n, document.count? = some (.num n) → ¬n.Oversized) ∧
      ∀ n, document.count? = some (.num n) → n.Oversized →
        ∃ cause, Decoder.integer (.num n) = .error cause ∧
          validator.parse ServerList.decode document = .error (.decode cause) := by
  obtain rfl := Except.ok.inj (Bundled.registry_bundled.symm.trans hregistry)
  obtain ⟨hnormalizes, hproper⟩ :=
    Validator.normalizes_of_compile Bundled.indexed hcompile hdocument hvalid
  obtain ⟨members, outputs, rfl, rfl, hmembers⟩ :=
    hnormalizes.of_flattens indexed flattens_serverList
  have hfails : ∀ n, (Json.obj members).count? = some (.num n) → n.Oversized →
      ∃ cause, Decoder.integer (.num n) = .error cause ∧
        validator.parse ServerList.decode (.obj members) = .error (.decode cause) := by
    intro n hcount hn
    obtain ⟨cause, hcause⟩ := hn.integer_eq
    have hdecode := decode_eq_error hmembers hdocument hproper hcount hn hcause
    exact ⟨cause, hcause, Validator.parse_of_decode_error hvalid hdecode⟩
  refine ⟨⟨?_, fun hfits => ?_⟩, hfails⟩
  · rintro ⟨list, hparse⟩ n hcount hn
    obtain ⟨cause, -, herror⟩ := hfails n hcount hn
    rw [hparse] at herror
    exact nomatch herror
  · obtain ⟨list, hdecode⟩ := decode_eq_ok hmembers hdocument hproper hfits
    exact ⟨list, Validator.parse_of_decode hvalid hdecode⟩

/-- A page with a count. -/
def pageDocument (servers : List Json) (count : Number) : Json :=
  .obj [("servers", .arr servers), ("metadata", .obj [("count", .num count)])]

def filesResponse : Json :=
  .obj [
    ("server", .obj [("name", .str "files"), ("description", .str "Serves files"),
      ("version", .str "1.0.0")]),
    ("_meta", .obj [(officialMetaKey, .obj [("status", .str "active"),
      ("publishedAt", .str "2025-09-01T12:00:00Z"),
      ("updatedAt", .str "2025-09-02T08:30:00.5+02:00"), ("isLatest", .bool true)])])]

/-- A page with one server and a count of `5.0`. -/
def filesDocument : Json := pageDocument [filesResponse] (.float ⟨false, 5 * 2 ^ 50, -50⟩)

theorem parse_of_count_five :
    ∃ validator output label? list,
      Bundled.registry.compile "ServerList" = .ok validator ∧
        validator.validate filesDocument = .valid output label? ∧
          validator.parse ServerList.decode filesDocument = .ok list := by
  have hvalidates : (Bundled.registry.compile "ServerList").toOption.any (fun validator =>
      (validator.validate filesDocument).isValid) = true := by
    decide +kernel
  obtain ⟨validator, hcompile, hvalid⟩ := exists_ok_of_any hvalidates
  obtain ⟨label?, hvalid⟩ := Validator.exists_validate_of_isValid hvalid
  have hdocument : filesDocument.Proper := by
    simp [filesDocument, pageDocument, filesResponse, officialMetaKey]
  have hparse := (parse_of_count Bundled.registry_bundled hcompile hdocument hvalid).1.mpr
  obtain ⟨list, hlist⟩ := hparse fun n hcount hn => by
    cases hcount
    cases hn with
    | float hvalue hrange =>
        cases hvalue
        exact hrange (by decide +kernel)
  exact ⟨validator, _, label?, list, hcompile, hvalid, hlist⟩

/-- An empty page whose count is 2⁶³ is accepted and not read. -/
theorem parse_oversized_count :
    ∃ validator output label?,
      Bundled.registry.compile "ServerList" = .ok validator ∧
        validator.validate (pageDocument [] (.int 9223372036854775808)) = .valid output label? ∧
          ¬∃ list, validator.parse ServerList.decode
            (pageDocument [] (.int 9223372036854775808)) = .ok list := by
  have hruns : (Bundled.registry.compile "ServerList").toOption.any (fun validator =>
      (validator.validate (pageDocument [] (.int 9223372036854775808))).isValid &&
        !(validator.parse ServerList.decode
          (pageDocument [] (.int 9223372036854775808))).toOption.isSome) = true := by
    decide +kernel
  obtain ⟨validator, hcompile, hruns⟩ := exists_ok_of_any hruns
  rw [Bool.and_eq_true, Bool.not_eq_true'] at hruns
  obtain ⟨label?, hvalid⟩ := Validator.exists_validate_of_isValid hruns.1
  refine ⟨validator, _, label?, hcompile, hvalid, ?_⟩
  rintro ⟨list, hparse⟩
  rw [hparse] at hruns
  exact nomatch hruns.2

end ServerList

end EntityContract
