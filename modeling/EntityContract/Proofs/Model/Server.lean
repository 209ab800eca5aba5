import EntityContract.Proofs.Json.Pointer
import EntityContract.Proofs.Model.Argument

/-!
Servers and what they are made of are kept, as inputs are. Only the arguments of packages may be
read as something else than what the schemas say, and then they are not written as they were.
-/

namespace EntityContract

open Bundled

variable {faithful : Prop} {members outputs : Members} {value output : Json}

namespace Repository

theorem keeps (h : Bundled.registry.Normalizes (.ref "Repository") value output)
    (hproper : output.Proper) :
    ∃ repository, Repository.decode.Keeps faithful Repository.encode output repository := by
  obtain ⟨members, outputs, rfl, rfl, hmembers⟩ := h.of_flattens indexed flattens_repository
  obtain ⟨url, hurl⟩ := FieldReader.keeps_required_text True "url" hmembers hproper rfl
  obtain ⟨source, hsource⟩ := FieldReader.keeps_required_text True "source" hmembers hproper rfl
  obtain ⟨id, hid⟩ := FieldReader.keeps_required_text True "id" hmembers hproper rfl
  obtain ⟨subfolder, hsubfolder⟩ :=
    FieldReader.keeps_optional_text True "subfolder" hmembers hproper rfl
  have hkeeps := ((((hurl.map Repository.mk).seq hsource).seq hid).seq hsubfolder).seq
    (FieldReader.keeps_extra True ["url", "source", "id", "subfolder"] outputs)
  have hwrites := hkeeps.writes_extra ["url", "source", "id", "subfolder"] hproper rfl (by decide)
    trivial
  refine ⟨_, Decoder.keeps_structured hproper hkeeps.run rfl fun _ => ?_⟩
  simpa [Members.ofPieces_cons_some, Members.ofPieces_cons_map] using hwrites

end Repository

namespace Server

def fieldNames : List String := ["name", "description", "repository", "version", "websiteUrl"]

theorem exists_ofMembers
    (h : Bundled.registry.NormalizesMembers ⟨serverFields, .passthrough⟩ members outputs)
    (hproper : (Json.obj outputs).Proper) :
    ∃ server, Server.ofMembers outputs = .ok server ∧ server.toMembers.Writes outputs := by
  obtain ⟨name, hname⟩ := FieldReader.keeps_required_text True "name" h hproper rfl
  obtain ⟨description, hdescription⟩ :=
    FieldReader.keeps_required_text True "description" h hproper rfl
  obtain ⟨repository, hrepository⟩ :=
    FieldReader.keeps_optional True "repository" h hproper rfl rfl nofun
      fun _ _ hproper h => Repository.keeps h hproper
  obtain ⟨version, hversion⟩ := FieldReader.keeps_required_text True "version" h hproper rfl
  obtain ⟨websiteUrl, hwebsiteUrl⟩ :=
    FieldReader.keeps_optional_text True "websiteUrl" h hproper rfl
  have hkeeps := (((((hname.map Server.mk).seq hdescription).seq hrepository).seq hversion).seq
    hwebsiteUrl).seq (FieldReader.keeps_extra True fieldNames outputs)
  have hwrites := hkeeps.writes_extra fieldNames hproper rfl (by decide) trivial
  refine ⟨_, hkeeps.run, ?_⟩
  simpa [toMembers, Members.ofPieces_cons_some, Members.ofPieces_cons_map] using hwrites

end Server

theorem RemoteTransport.keeps
    (h : Bundled.registry.Normalizes (.enum ["streamable-http", "sse"]) value output) :
    ∃ transport, RemoteTransport.decode.Keeps faithful RemoteTransport.encode output transport :=
  Decoder.keeps_variant h (by simp [RemoteTransport.encode])

theorem KeyValueInput.keeps_list
    (h : Bundled.registry.Normalizes (.array (.ref "KeyValueInput")) value output)
    (hproper : output.Proper) :
    ∃ inputs, (Decoder.list KeyValueInput.decode).Keeps faithful (Encode.list KeyValueInput.encode)
      output inputs :=
  Decoder.keeps_list h hproper fun _ _ hproper h => KeyValueInput.keeps h hproper

namespace Remote

theorem keeps (h : Bundled.registry.Normalizes (.ref "Remote") value output)
    (hproper : output.Proper) :
    ∃ remote, Remote.decode.Keeps faithful Remote.encode output remote := by
  obtain ⟨members, outputs, rfl, rfl, hmembers⟩ := h.of_flattens indexed flattens_remote
  obtain ⟨transport, htransport⟩ :=
    FieldReader.keeps_required True "type" hmembers hproper rfl rfl
      fun _ _ _ => RemoteTransport.keeps
  obtain ⟨url, hurl⟩ := FieldReader.keeps_required_text True "url" hmembers hproper rfl
  obtain ⟨headers, hheaders⟩ :=
    FieldReader.keeps_optional True "headers" hmembers hproper rfl rfl nofun
      fun _ _ hproper h => KeyValueInput.keeps_list h hproper
  have hkeeps := (((htransport.map Remote.mk).seq hurl).seq hheaders).seq
    (FieldReader.keeps_extra True ["type", "url", "headers"] outputs)
  have hwrites := hkeeps.writes_extra ["type", "url", "headers"] hproper rfl (by decide) trivial
  refine ⟨_, Decoder.keeps_structured hproper hkeeps.run rfl fun _ => ?_⟩
  simpa [Members.ofPieces_cons_some, Members.ofPieces_cons_map] using hwrites

end Remote

namespace Package

/-- The two lists of arguments of a package. -/
inductive ArgumentList where
  | runtime
  | package

def ArgumentList.name : ArgumentList → String
  | .runtime => "runtimeArguments"
  | .package => "packageArguments"

def arguments (package : Package) : ArgumentList → Option (List Argument)
  | .runtime => package.runtimeArguments
  | .package => package.packageArguments

def ReadFrom (package : Package) (value : Json) : Prop :=
  ∀ list : ArgumentList, Option.Rel (fun value arguments =>
    ∃ items, value = .arr items ∧
      List.Forall₂ (fun value argument => argument.ReadFrom value) items arguments)
      (value.get? list.name) (package.arguments list)

theorem keeps_arguments (h : Bundled.registry.Normalizes (.array (.ref "Argument")) value output)
    (hvalue : value.Proper) (hproper : output.Proper)
    (hfaithful : faithful → ∀ items, value = .arr items →
      ∀ part ∈ items, ¬part.MiswrittenArgument) :
    ∃ arguments, (Decoder.list Argument.decode).Keeps faithful (Encode.list Argument.encode)
      output arguments ∧ ∃ items, value = .arr items ∧
        List.Forall₂ (fun value argument => argument.ReadFrom value) items arguments :=
  Decoder.keeps_list_rel faithful h hproper fun items heq part hpart _ hproper h =>
    Argument.keeps h (hvalue.part (heq ▸ .item hpart)) hproper fun hholds =>
      hfaithful hholds items heq part hpart

theorem keeps (h : Bundled.registry.Normalizes (.ref "Package") value output)
    (hvalue : value.Proper) (hproper : output.Proper)
    (hfaithful : faithful → ∀ (list : ArgumentList) items,
      value.get? list.name = some (.arr items) → ∀ part ∈ items, ¬part.MiswrittenArgument) :
    ∃ package, Package.decode.Keeps faithful Package.encode output package ∧
      package.ReadFrom value := by
  obtain ⟨members, outputs, rfl, rfl, hmembers⟩ := h.of_flattens indexed flattens_package
  obtain ⟨registryType, hregistryType⟩ :=
    FieldReader.keeps_required_text faithful "registryType" hmembers hproper rfl
  obtain ⟨registryBaseUrl, hregistryBaseUrl⟩ :=
    FieldReader.keeps_optional_text faithful "registryBaseUrl" hmembers hproper rfl
  obtain ⟨identifier, hidentifier⟩ :=
    FieldReader.keeps_required_text faithful "identifier" hmembers hproper rfl
  obtain ⟨version, hversion⟩ :=
    FieldReader.keeps_required_text faithful "version" hmembers hproper rfl
  obtain ⟨fileSha256, hfileSha256⟩ :=
    FieldReader.keeps_optional_text faithful "fileSha256" hmembers hproper rfl
  obtain ⟨runtimeHint, hruntimeHint⟩ :=
    FieldReader.keeps_optional_text faithful "runtimeHint" hmembers hproper rfl
  obtain ⟨runtimeArguments, hruntimeArguments, hruntime⟩ :=
    FieldReader.keeps_optional_rel faithful "runtimeArguments" hmembers hproper rfl rfl nofun
      fun value _ hlookup hproper h => keeps_arguments h (hvalue.lookup hlookup) hproper
        fun hholds items heq => hfaithful hholds .runtime items (heq ▸ hlookup)
  obtain ⟨packageArguments, hpackageArguments, hpackage⟩ :=
    FieldReader.keeps_optional_rel faithful "packageArguments" hmembers hproper rfl rfl nofun
      fun value _ hlookup hproper h => keeps_arguments h (hvalue.lookup hlookup) hproper
        fun hholds items heq => hfaithful hholds .package items (heq ▸ hlookup)
  obtain ⟨environmentVariables, henvironmentVariables⟩ :=
    FieldReader.keeps_optional faithful "environmentVariables" hmembers hproper rfl rfl nofun
      fun _ _ hproper h => KeyValueInput.keeps_list h hproper
  have hkeeps := (((((((((hregistryType.map Package.mk).seq hregistryBaseUrl).seq hidentifier).seq
    hversion).seq hfileSha256).seq hruntimeHint).seq hruntimeArguments).seq hpackageArguments).seq
    henvironmentVariables).seq (FieldReader.keeps_extra faithful fieldNames outputs)
  refine ⟨_, Decoder.keeps_structured hproper hkeeps.run rfl fun hholds => ?_, fun list => ?_⟩
  · have hwrites := hkeeps.writes_extra fieldNames hproper rfl (by decide) hholds
    simpa [Members.ofPieces_cons_some, Members.ofPieces_cons_map] using hwrites
  · cases list with
    | runtime => exact hruntime
    | package => exact hpackage

end Package

namespace ServerDetail

def fieldNames : List String := ["$schema", "packages", "remotes", "_meta"]

def ReadFrom (detail : ServerDetail) (value : Json) : Prop :=
  Option.Rel (fun value packages => ∃ items, value = .arr items ∧
      List.Forall₂ (fun value package => package.ReadFrom value) items packages)
    (value.get? "packages") detail.packages

theorem keeps_metadata
    (h : Bundled.registry.Normalizes (.object metadataFields .passthrough) value output)
    (hproper : output.Proper) :
    ∃ members, Decoder.object.Keeps faithful .obj output members := by
  obtain ⟨-, outputs, rfl, rfl, -⟩ := h.of_flattens indexed (.object _ _)
  exact ⟨outputs, rfl, fun _ => Json.same_refl hproper⟩

theorem keeps (h : Bundled.registry.Normalizes (.ref "ServerDetail") value output)
    (hvalue : value.Proper) (hproper : output.Proper)
    (hfaithful : faithful → ∀ packages, value.get? "packages" = some (.arr packages) →
      ∀ package ∈ packages, ∀ (list : Package.ArgumentList) items,
        package.get? list.name = some (.arr items) → ∀ part ∈ items, ¬part.MiswrittenArgument) :
    ∃ detail, ServerDetail.decode.Keeps faithful ServerDetail.encode output detail ∧
      detail.ReadFrom value := by
  obtain ⟨members, outputs, rfl, rfl, hmembers⟩ := h.of_flattens indexed flattens_serverDetail
  obtain ⟨schema, hschema⟩ :=
    FieldReader.keeps_optional_text faithful "$schema" hmembers hproper rfl
  obtain ⟨packages, hpackages, hread⟩ :=
    FieldReader.keeps_optional_rel faithful "packages" hmembers hproper rfl rfl nofun
      fun value _ hlookup hproper h => Decoder.keeps_list_rel faithful h hproper
        fun items heq part hpart _ hproper h =>
          Package.keeps h ((hvalue.lookup hlookup).part (heq ▸ .item hpart)) hproper
            fun hholds => hfaithful hholds items (heq ▸ hlookup) part hpart
  obtain ⟨remotes, hremotes⟩ :=
    FieldReader.keeps_optional faithful "remotes" hmembers hproper rfl rfl nofun
      fun _ _ hproper h => Decoder.keeps_list h hproper fun _ _ hproper h => Remote.keeps h hproper
  obtain ⟨metadata, hmetadata⟩ :=
    FieldReader.keeps_optional faithful "_meta" hmembers hproper rfl rfl nofun
      fun _ _ hproper h => keeps_metadata h hproper
  have hkeeps := (((hschema.map (·, ·, ·, ·)).seq hpackages).seq hremotes).seq hmetadata
  have hrest := Members.normalizes_without hmembers fieldNames
  obtain ⟨server, hserver, hwrites⟩ :=
    Server.exists_ofMembers hrest (Members.proper_without _ hproper)
  have hofMembers : ofMembers outputs = .ok ⟨server, schema, packages, remotes, metadata⟩ := by
    have hserver' : Server.ofMembers
        (Members.without ["$schema", "packages", "remotes", "_meta"] outputs) = .ok server :=
      hserver
    rw [ofMembers, hkeeps.run]
    simp only [bind, Except.bind, hserver']
    rfl
  refine ⟨_, Decoder.keeps_structured hproper hofMembers rfl fun hholds => ?_, hread⟩
  have happend := Members.writes_append hwrites rfl (by decide) (hkeeps.writes hholds)
  simpa [Members.ofPieces_cons_map] using happend

end ServerDetail

/-- The argument of a package in a document, by the number of the package and its own. -/
def Json.argument? (document : Json) (package : Nat) (list : Package.ArgumentList) (index : Nat) :
    Option Json :=
  document.follow? [.key "packages", .index package, .key list.name, .index index]

def ServerDetail.argument? (detail : ServerDetail) (package : Nat) (list : Package.ArgumentList)
    (index : Nat) : Option Argument :=
  ((detail.packages.bind (·[package]?)).bind (·.arguments list)).bind (·[index]?)

namespace ServerDetail

theorem argument?_eq (document : Json) (package : Nat) (list : Package.ArgumentList) (index : Nat) :
    document.argument? package list index =
      ((((document.get? "packages").bind (·.at? package)).bind (·.get? list.name)).bind
        (·.at? index)) := by
  simp [Json.argument?, Json.follow?, Json.enter?, Option.bind_assoc]

theorem argument?_readFrom {detail : ServerDetail} {document : Json} (h : detail.ReadFrom document)
    (package : Nat) (list : Package.ArgumentList) (index : Nat) :
    Option.Rel (fun value argument => argument.ReadFrom value)
      (document.argument? package list index) (detail.argument? package list index) := by
  rw [argument?_eq, argument?]
  have hpackage : Option.Rel (fun value package => Package.ReadFrom package value)
      ((document.get? "packages").bind (·.at? package)) (detail.packages.bind (·[package]?)) := by
    refine Pairing.bind h ?_
    rintro _ packages ⟨items, rfl, hitems⟩
    exact Pairing.getElem? hitems package
  refine Pairing.bind (Pairing.bind hpackage fun _ _ hread => hread list) ?_
  rintro _ arguments ⟨items, rfl, hitems⟩
  exact Pairing.getElem? hitems index

end ServerDetail

end EntityContract
