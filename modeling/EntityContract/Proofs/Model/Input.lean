import EntityContract.Proofs.Document.Bundled
import EntityContract.Proofs.Model.Reading

/-!
Inputs, arguments and settings are kept: what validation makes of them by the bundled schemas is
read, and written again as it was.
-/

namespace EntityContract

open Bundled

variable {faithful : Prop} {members outputs : Members} {value output : Json}

theorem InputFormat.keeps (h : Bundled.registry.Normalizes
      (.enum ["string", "number", "boolean", "filepath"]) value output) :
    ∃ format, InputFormat.decode.Keeps faithful InputFormat.encode output format :=
  Decoder.keeps_variant h (by simp [InputFormat.encode])

namespace Input

theorem exists_ofMembers
    (h : Bundled.registry.NormalizesMembers ⟨inputFields, .passthrough⟩ members outputs)
    (hproper : (Json.obj outputs).Proper) :
    ∃ input, Input.ofMembers outputs = .ok input ∧ input.toMembers.Writes outputs := by
  obtain ⟨description, hdescription⟩ :=
    FieldReader.keeps_optional_text True "description" h hproper rfl
  obtain ⟨isRequired, hisRequired⟩ :=
    FieldReader.keeps_withDefault_flag True "isRequired" h hproper rfl
  obtain ⟨format, hformat⟩ :=
    FieldReader.keeps_withDefault True "format" h hproper InputFormat.encode .string rfl
      (fun _ _ _ => InputFormat.keeps) rfl
  obtain ⟨value, hvalue⟩ := FieldReader.keeps_optional_text True "value" h hproper rfl
  obtain ⟨isSecret, hisSecret⟩ := FieldReader.keeps_withDefault_flag True "isSecret" h hproper rfl
  obtain ⟨default?, hdefault⟩ := FieldReader.keeps_optional_text True "default" h hproper rfl
  obtain ⟨choices, hchoices⟩ :=
    FieldReader.keeps_optional True "choices" h hproper rfl rfl nofun
      fun _ _ hproper h => Decoder.keeps_texts h hproper
  have hkeeps := (((((((hdescription.map Input.mk).seq hisRequired).seq hformat).seq hvalue).seq
    hisSecret).seq hdefault).seq hchoices).seq (FieldReader.keeps_extra True fieldNames outputs)
  have hwrites := hkeeps.writes_extra fieldNames hproper rfl (by decide) trivial
  refine ⟨_, hkeeps.run, ?_⟩
  simpa [toMembers, Members.ofPieces_cons_some, Members.ofPieces_cons_map] using hwrites

theorem keeps (h : Bundled.registry.Normalizes (.ref "Input") value output)
    (hproper : output.Proper) : ∃ input, Input.decode.Keeps faithful Input.encode output input := by
  obtain ⟨members, outputs, rfl, rfl, hmembers⟩ := h.of_flattens indexed flattens_input
  obtain ⟨input, hread, hwrites⟩ := exists_ofMembers hmembers hproper
  exact ⟨input, Decoder.keeps_structured hproper hread rfl fun _ => hwrites⟩

end Input

namespace InputWithVariables

theorem perm_insertVariable {name : String} {input : Input} {parts : List (String × Input)}
    (h : name ∉ parts.map (·.1)) :
    (insertVariable name input parts).Perm ((name, input) :: parts) := by
  induction parts with
  | nil => exact .refl _
  | cons part parts ih =>
      obtain ⟨other, old⟩ := part
      rw [List.map_cons, List.mem_cons, not_or] at h
      rw [insertVariable, if_neg h.1]
      split
      · exact .refl _
      · exact ((ih h.2).cons _).trans (.swap _ _ _)

/-- Distinct names are brought into order. -/
theorem perm_sortVariables {parts : List (String × Input)} (h : (parts.map (·.1)).Nodup) :
    (sortVariables parts).Perm parts := by
  have hfold : ∀ (parts sorted : List (String × Input)), ((sorted ++ parts).map (·.1)).Nodup →
      (parts.foldl (fun sorted entry => insertVariable entry.1 entry.2 sorted) sorted).Perm
        (sorted ++ parts) := by
    intro parts
    induction parts with
    | nil =>
        intro sorted _
        rw [List.append_nil]
        exact .refl _
    | cons part parts ih =>
        intro sorted hnodup
        have hmiddle : (sorted ++ part :: parts).Perm (part :: sorted ++ parts) := List.perm_middle
        have hnew : part.1 ∉ sorted.map (·.1) := by
          have hnodup' := (hmiddle.map (·.1)).nodup_iff.mp hnodup
          rw [List.cons_append, List.map_cons, List.nodup_cons, List.map_append] at hnodup'
          exact fun hmem => hnodup'.1 (List.mem_append_left _ hmem)
        have hinsert : (insertVariable part.1 part.2 sorted ++ parts).Perm
            (sorted ++ part :: parts) :=
          ((perm_insertVariable hnew).append_right parts).trans hmiddle.symm
        rw [List.foldl_cons]
        exact (ih _ ((hinsert.map (·.1)).nodup_iff.mpr hnodup)).trans hinsert
  exact hfold parts [] h

def encodeVariables (parts : List (String × Input)) : Json :=
  .obj ((sortVariables parts).map fun entry => (entry.1, entry.2.encode))

theorem keeps_variables (h : Bundled.registry.Normalizes (.record (.ref "Input")) value output)
    (hproper : output.Proper) :
    ∃ parts, (Decoder.record Input.decode).Keeps faithful encodeVariables output parts := by
  obtain ⟨outputs, parts, rfl, hread, hnodup, hwrites⟩ :=
    Decoder.keeps_record faithful h hproper fun _ _ hproper h => Input.keeps h hproper
  refine ⟨parts, hread, fun hfaithful => Members.Writes.same ?_ hproper.nodup⟩
  exact (hwrites hfaithful).perm ((perm_sortVariables hnodup).symm.map _)

theorem exists_ofMembers
    (h : Bundled.registry.NormalizesMembers ⟨inputFields ++ variablesFields, .passthrough⟩
      members outputs) (hproper : (Json.obj outputs).Proper) :
    ∃ input, InputWithVariables.ofMembers outputs = .ok input ∧
      input.toMembers.Writes outputs := by
  obtain ⟨parts, hparts⟩ := FieldReader.keeps_optional True "variables" h hproper rfl rfl nofun
    fun _ _ hproper h => keeps_variables h hproper
  have hrest := Members.normalizes_without h ["variables"]
  obtain ⟨input, hinput, hwrites⟩ :=
    Input.exists_ofMembers hrest (Members.proper_without _ hproper)
  refine ⟨⟨input, parts.map sortVariables⟩, ?_, ?_⟩
  · rw [ofMembers, hparts.run]
    simp only [bind, Except.bind, hinput]
    rfl
  · have happend := Members.writes_append hwrites rfl (by decide) (hparts.writes trivial)
    rw [toMembers]
    cases parts with
    | none => exact happend
    | some parts => exact happend

end InputWithVariables

theorem NamedArgumentType.keeps
    (h : Bundled.registry.Normalizes (.literal (.str "named")) value output) :
    ∃ type, NamedArgumentType.decode.Keeps faithful NamedArgumentType.encode output type := by
  cases h with
  | literal hsame =>
      cases value with
      | str text =>
          rw [Json.same_str_iff, Json.str.injEq] at hsame
          subst hsame
          exact ⟨.named, rfl, fun _ => rfl⟩
      | _ => exact absurd hsame (by simp [Json.same])
  | object _ hflattens => cases hflattens

namespace NamedArgument

def fieldNames : List String := ["type", "name", "isRepeated"]

/-- The fields of its own first, the input from the other members. -/
theorem ofMembers_eq {type : NamedArgumentType} {name : String} {isRepeated : Bool}
    {base : InputWithVariables} {pieces pieces' pieces'' : List (String × Option Json)}
    (htype : (FieldReader.required "type" NamedArgumentType.decode).Keeps faithful members type
      pieces)
    (hname : (FieldReader.required "name" .text).Keeps faithful members name pieces')
    (hisRepeated : (FieldReader.withDefault "isRepeated" .flag false).Keeps faithful members
      isRepeated pieces'')
    (hbase : InputWithVariables.ofMembers (members.without fieldNames) = .ok base) :
    NamedArgument.ofMembers members = .ok ⟨base, type, name, isRepeated⟩ := by
  have hbase' : InputWithVariables.ofMembers (members.without ["type", "name", "isRepeated"]) =
      .ok base := hbase
  rw [ofMembers, (((htype.map (·, ·, ·)).seq hname).seq hisRepeated).run]
  simp only [bind, Except.bind, hbase']
  rfl

theorem exists_ofMembers
    (h : Bundled.registry.NormalizesMembers
      ⟨inputFields ++ variablesFields ++ namedFields, .passthrough⟩ members outputs)
    (hproper : (Json.obj outputs).Proper) :
    ∃ argument, NamedArgument.ofMembers outputs = .ok argument ∧
      argument.toMembers.Writes outputs := by
  obtain ⟨type, htype⟩ := FieldReader.keeps_required True "type" h hproper rfl rfl
    fun _ _ _ => NamedArgumentType.keeps
  obtain ⟨name, hname⟩ := FieldReader.keeps_required_text True "name" h hproper rfl
  obtain ⟨isRepeated, hisRepeated⟩ :=
    FieldReader.keeps_withDefault_flag True "isRepeated" h hproper rfl
  have hrest := Members.normalizes_without h fieldNames
  obtain ⟨base, hbase, hwrites⟩ :=
    InputWithVariables.exists_ofMembers hrest (Members.proper_without _ hproper)
  have hkeeps := ((htype.map (·, ·, ·)).seq hname).seq hisRepeated
  exact ⟨_, ofMembers_eq htype hname hisRepeated hbase,
    Members.writes_append hwrites rfl (by decide) (hkeeps.writes trivial)⟩

end NamedArgument

namespace KeyValueInput

theorem exists_ofMembers
    (h : Bundled.registry.NormalizesMembers
      ⟨inputFields ++ variablesFields ++ keyFields, .passthrough⟩ members outputs)
    (hproper : (Json.obj outputs).Proper) :
    ∃ input, KeyValueInput.ofMembers outputs = .ok input ∧ input.toMembers.Writes outputs := by
  obtain ⟨name, hname⟩ := FieldReader.keeps_required_text True "name" h hproper rfl
  have hrest := Members.normalizes_without h ["name"]
  obtain ⟨base, hbase, hwrites⟩ :=
    InputWithVariables.exists_ofMembers hrest (Members.proper_without _ hproper)
  refine ⟨⟨base, name⟩, ?_, Members.writes_append hwrites rfl (by decide) (hname.writes trivial)⟩
  rw [ofMembers, hname.run]
  simp only [bind, Except.bind, hbase]
  rfl

theorem keeps (h : Bundled.registry.Normalizes (.ref "KeyValueInput") value output)
    (hproper : output.Proper) :
    ∃ input, KeyValueInput.decode.Keeps faithful KeyValueInput.encode output input := by
  obtain ⟨members, outputs, rfl, rfl, hmembers⟩ := h.of_flattens indexed flattens_keyValueInput
  obtain ⟨input, hread, hwrites⟩ := exists_ofMembers hmembers hproper
  exact ⟨input, Decoder.keeps_structured hproper hread rfl fun _ => hwrites⟩

end KeyValueInput

end EntityContract
