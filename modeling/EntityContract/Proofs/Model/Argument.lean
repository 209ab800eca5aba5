import EntityContract.Proofs.Model.Input

/-!
Arguments are told apart in two ways: by the schemas, of which the one that declares more of the
members is taken, and by what can be read as a named argument. Both come to the same, but for
arguments of which the type is miswritten.
-/

namespace EntityContract

open Bundled

variable {faithful : Prop} {members outputs : Members} {value output : Json}

def Argument.isNamed : Argument → Bool
  | .named _ => true
  | .positional _ => false

/-- A named argument of which the type is an object of the one name and null: it can be read, but
it is none by the schemas. -/
def Json.MiswrittenArgument (value : Json) : Prop :=
  ∃ members name, value = .obj members ∧
    members.lookup "type" = some (.obj [("named", .null)]) ∧
    members.lookup "name" = some (.str name) ∧
    ∀ repeated, members.lookup "isRepeated" = some repeated → ∃ flag, repeated = .bool flag

namespace NamedArgument

/-- What the type of a named argument is read from. -/
theorem type_of_decode {value : Json} {type : NamedArgumentType}
    (h : NamedArgumentType.decode value = .ok type) :
    value = .str "named" ∨ value = .obj [("named", .null)] := by
  have hfind : ∀ {name : String},
      Decoder.variant.find [("named", NamedArgumentType.named)] name = .ok type →
        name = "named" := by
    intro name hfind
    rw [Decoder.variant.find] at hfind
    split at hfind
    · rename_i hlookup
      simpa using Association.mem_of_lookup hlookup
    · cases hfind
  rw [NamedArgumentType.decode, Decoder.variant.eq_def] at h
  split at h
  · exact Or.inl (congrArg _ (hfind h))
  · rename_i name payload
    obtain ⟨found, hfound, h⟩ := bind_eq_ok_iff.mp h
    split at h
    · cases h
      exact Or.inr (by rw [hfind hfound])
    · cases h
  · cases h
  · cases h

/-- What is read as a named argument has a name, a type, and a flag if any. -/
theorem members_of_decode {argument : NamedArgument}
    (h : NamedArgument.ofMembers members = .ok argument) :
    ∃ type name, members.lookup "type" = some type ∧ members.lookup "name" = some (.str name) ∧
      (type = .str "named" ∨ type = .obj [("named", .null)]) ∧
      ∀ repeated, members.lookup "isRepeated" = some repeated → ∃ flag, repeated = .bool flag := by
  obtain ⟨⟨type, name, isRepeated⟩, hrun, -⟩ := bind_eq_ok_iff.mp h
  obtain ⟨f, flag, hf, hflag, -⟩ := FieldReader.value?_seq_eq_some (FieldReader.value?_of_run hrun)
  obtain ⟨g, text, hg, htext, -⟩ := FieldReader.value?_seq_eq_some hf
  obtain ⟨variant, hvariant, -⟩ := FieldReader.value?_map_eq_some hg
  obtain ⟨written, hwritten, hdecode⟩ := FieldReader.value?_required_eq_some hvariant
  obtain ⟨found, hfound, hread⟩ := FieldReader.value?_required_eq_some htext
  have hstr : found = .str text := by
    cases found with
    | str other => rw [Except.ok.inj hread]
    | _ => cases hread
  subst hstr
  refine ⟨written, text, hwritten, hfound, type_of_decode hdecode, fun repeated hrepeated => ?_⟩
  rcases FieldReader.value?_orAbsent_eq_some hflag with ⟨found, hfound, hread⟩ | ⟨habsent, -⟩
  · rw [hrepeated, Option.some.injEq] at hfound
    subst hfound
    cases repeated with
    | bool other => exact ⟨other, rfl⟩
    | _ => cases hread
  · rw [hrepeated] at habsent
    cases habsent

/-- An object that is read as an input is read as a named argument too if the members for that
are there. -/
theorem exists_ofMembers_of_input {name : String}
    (h : Bundled.registry.NormalizesMembers ⟨inputFields ++ variablesFields, .passthrough⟩
      members outputs) (hproper : (Json.obj outputs).Proper)
    (htype : outputs.lookup "type" = some (.obj [("named", .null)]))
    (hname : outputs.lookup "name" = some (.str name))
    (hrepeated : ∀ repeated, outputs.lookup "isRepeated" = some repeated →
      ∃ flag, repeated = .bool flag) :
    ∃ argument, NamedArgument.ofMembers outputs = .ok argument := by
  have hrest := Members.normalizes_without h fieldNames
  obtain ⟨base, hbase, -⟩ :=
    InputWithVariables.exists_ofMembers hrest (Members.proper_without _ hproper)
  have htypeKeeps : (FieldReader.required "type" NamedArgumentType.decode).Keeps False outputs
      .named [] := ⟨FieldReader.read_orAbsent_of_ok htype rfl, False.elim⟩
  have hnameKeeps : (FieldReader.required "name" .text).Keeps False outputs name [] :=
    ⟨FieldReader.read_orAbsent_of_ok hname rfl, False.elim⟩
  have hflagKeeps : ∃ flag, (FieldReader.withDefault "isRepeated" .flag false).Keeps False outputs
      flag [] := by
    cases hlookup : outputs.lookup "isRepeated" with
    | none => exact ⟨false, FieldReader.read_orAbsent_of_none hlookup, False.elim⟩
    | some repeated =>
        obtain ⟨flag, rfl⟩ := hrepeated repeated hlookup
        exact ⟨flag, FieldReader.read_orAbsent_of_ok hlookup rfl, False.elim⟩
  obtain ⟨flag, hflagKeeps⟩ := hflagKeeps
  exact ⟨_, ofMembers_eq htypeKeeps hnameKeeps hflagKeeps hbase⟩

/-- The schema of named arguments, on top of that of inputs. -/
theorem satisfies_of_members {name : String} (hproper : (Json.obj members).Proper)
    (h : Bundled.registry.Satisfies (.ref "InputWithVariables") (.obj members))
    (htype : members.lookup "type" = some (.str "named"))
    (hname : members.lookup "name" = some (.str name))
    (hrepeated : ∀ repeated, members.lookup "isRepeated" = some repeated →
      ∃ flag, repeated = .bool flag) :
    Bundled.registry.Satisfies (.ref "NamedArgument") (.obj members) := by
  have hkey : ∀ {key : String} {value : Json}, members.lookup key = some value →
      key ∈ members.map (·.1) :=
    fun hlookup => List.mem_map_of_mem (f := (·.1)) (Association.mem_of_lookup hlookup)
  have hmember : ∀ member ∈ members, members.lookup member.1 = some member.2 :=
    fun member hmem => Association.lookup_of_mem hproper.nodup hmem
  refine .ref rfl (.intersection h (.object ?_ ?_))
  · refine List.forall_mem_cons.mpr ⟨fun _ => hkey htype, List.forall_mem_cons.mpr
      ⟨fun _ => hkey hname, List.forall_mem_singleton.mpr fun hrequired => nomatch hrequired⟩⟩
  · refine List.forall_mem_cons.mpr ⟨fun member hmem heq => ?_, List.forall_mem_cons.mpr
      ⟨fun member hmem heq => ?_, List.forall_mem_singleton.mpr fun member hmem heq => ?_⟩⟩
    · have hlookup := hmember member hmem
      rw [heq, htype, Option.some.injEq] at hlookup
      rw [← hlookup]
      exact .literal (Json.same_str_iff.mpr rfl)
    · have hlookup := hmember member hmem
      rw [heq, hname, Option.some.injEq] at hlookup
      rw [← hlookup]
      exact .string rfl
    · have hlookup := hmember member hmem
      rw [heq] at hlookup
      obtain ⟨flag, hflag⟩ := hrepeated _ hlookup
      rw [hflag]
      exact .boolean flag

end NamedArgument

namespace Argument

/-- An argument is positional unless it is a named one: the named one declares its type too. -/
theorem normalizes_cases (h : Bundled.registry.Normalizes (.ref "Argument") value output) :
    ∃ members outputs, value = .obj members ∧ output = .obj outputs ∧
      ((Bundled.registry.NormalizesMembers
          ⟨inputFields ++ variablesFields ++ namedFields, .passthrough⟩ members outputs ∧
        Bundled.registry.Satisfies (.ref "NamedArgument") value) ∨
      (Bundled.registry.NormalizesMembers ⟨inputFields ++ variablesFields, .passthrough⟩
          members outputs ∧
        Bundled.registry.Satisfies (.ref "InputWithVariables") value ∧
          ¬Bundled.registry.Satisfies (.ref "NamedArgument") value)) := by
  have hfound : Bundled.registry.shape? "Argument" =
      some (.union [.ref "PositionalArgument", .ref "NamedArgument"]) := rfl
  cases h with
  | object href => exact absurd rfl (href _)
  | ref hshape h =>
      rw [hfound, Option.some.injEq] at hshape
      subst hshape
      cases h with
      | object _ hflattens => cases hflattens
      | @union _ variant _ _ hvariant hsatisfies hnormalizes hbest =>
          rcases List.mem_cons.mp hvariant with rfl | hvariant
          · obtain ⟨members, outputs, rfl, rfl, hmembers⟩ :=
              hnormalizes.of_flattens indexed flattens_positionalArgument
            refine ⟨members, outputs, rfl, rfl, Or.inr ⟨hmembers, ?_, fun hnamed => ?_⟩⟩
            · exact (Registry.satisfies_ref_iff rfl).mp hsatisfies
            · have hle := hbest _ (List.mem_cons_of_mem _ List.mem_cons_self) hnamed _ _
                flattens_positionalArgument flattens_namedArgument
              have htype : "type" ∈ members.map (·.1) := by
                cases (Registry.satisfies_ref_iff rfl).mp hnamed with
                | intersection _ hown =>
                    cases hown with
                    | object hrequired => exact hrequired _ List.mem_cons_self rfl
              exact absurd hle (Nat.not_le_of_lt
                (ObjectShape.coverage_lt htype (by decide) (by decide)))
          · rw [List.mem_singleton] at hvariant
            subst hvariant
            obtain ⟨members, outputs, rfl, rfl, hmembers⟩ :=
              hnormalizes.of_flattens indexed flattens_namedArgument
            exact ⟨members, outputs, rfl, rfl, Or.inl ⟨hmembers, hsatisfies⟩⟩

/-- The value is read as a named argument if it is one by the schema, or miswritten. -/
def ReadFrom (argument : Argument) (value : Json) : Prop :=
  argument.isNamed = true ↔
    Bundled.registry.Satisfies (.ref "NamedArgument") value ∨ value.MiswrittenArgument

theorem keeps_named {argument : NamedArgument} (hproper : (Json.obj outputs).Proper)
    (hread : NamedArgument.ofMembers outputs = .ok argument)
    (hwrites : faithful → argument.toMembers.Writes outputs) :
    Argument.decode.Keeps faithful Argument.encode (.obj outputs) (.named argument) := by
  have hdecode : NamedArgument.decode (.obj outputs) = .ok argument := hread
  refine ⟨?_, fun hfaithful => (hwrites hfaithful).same hproper.nodup⟩
  rw [decode, hdecode]

theorem keeps_positional {input : InputWithVariables} (hproper : (Json.obj outputs).Proper)
    (hnot : ∀ argument, NamedArgument.ofMembers outputs ≠ .ok argument)
    (hread : InputWithVariables.ofMembers outputs = .ok input)
    (hwrites : input.toMembers.Writes outputs) :
    Argument.decode.Keeps faithful Argument.encode (.obj outputs) (.positional input) := by
  refine ⟨?_, fun _ => hwrites.same hproper.nodup⟩
  have hinput : InputWithVariables.decode (.obj outputs) = .ok input := hread
  rw [decode, hinput]
  cases hnamed : NamedArgument.decode (.obj outputs) with
  | ok argument => exact absurd hnamed (hnot argument)
  | error cause => rfl

/-- Every argument is read, as the schema says unless it is miswritten; and it is written again as
it was unless it is miswritten. -/
theorem keeps (h : Bundled.registry.Normalizes (.ref "Argument") value output)
    (hvalue : value.Proper) (hproper : output.Proper)
    (hfaithful : faithful → ¬value.MiswrittenArgument) :
    ∃ argument, Argument.decode.Keeps faithful Argument.encode output argument ∧
      argument.ReadFrom value := by
  obtain ⟨members, outputs, rfl, rfl, ⟨hmembers, hnamed⟩ | ⟨hmembers, hinput, hnot⟩⟩ :=
    normalizes_cases h
  · obtain ⟨argument, hread, hwrites⟩ := NamedArgument.exists_ofMembers hmembers hproper
    exact ⟨.named argument, keeps_named hproper hread fun _ => hwrites,
      iff_of_true rfl (Or.inl hnamed)⟩
  · -- The members that a named argument has of its own are not declared here, so they are kept.
    have htype : outputs.lookup "type" = members.lookup "type" := hmembers.undeclared rfl
    have hname : outputs.lookup "name" = members.lookup "name" := hmembers.undeclared rfl
    have hrepeated : outputs.lookup "isRepeated" = members.lookup "isRepeated" :=
      hmembers.undeclared rfl
    by_cases hmiswritten : (Json.obj members).MiswrittenArgument
    · obtain ⟨_, name, heq, hmtype, hmname, hmrepeated⟩ := hmiswritten
      cases heq
      obtain ⟨argument, hread⟩ := NamedArgument.exists_ofMembers_of_input hmembers hproper
        (htype.trans hmtype) (hname.trans hmname) (hrepeated ▸ hmrepeated)
      refine ⟨.named argument, keeps_named hproper hread fun hholds => ?_,
        iff_of_true rfl (Or.inr ⟨_, name, rfl, hmtype, hmname, hmrepeated⟩)⟩
      exact absurd ⟨_, name, rfl, hmtype, hmname, hmrepeated⟩ (hfaithful hholds)
    · obtain ⟨input, hread, hwrites⟩ := InputWithVariables.exists_ofMembers hmembers hproper
      refine ⟨.positional input, keeps_positional hproper (fun argument hnamed => ?_) hread hwrites,
        iff_of_false Bool.false_ne_true (not_or.mpr ⟨hnot, hmiswritten⟩)⟩
      obtain ⟨type, name, hotype, honame, htypes, horepeated⟩ :=
        NamedArgument.members_of_decode hnamed
      rw [htype] at hotype
      rw [hname] at honame
      rw [hrepeated] at horepeated
      rcases htypes with rfl | rfl
      · exact hnot (NamedArgument.satisfies_of_members hvalue hinput hotype honame horepeated)
      · exact hmiswritten ⟨_, name, rfl, hotype, honame, horepeated⟩

end Argument

end EntityContract
