import EntityContract.Config.Basic
import EntityContract.File.Tree
import EntityContract.Proofs.Document.Bundled
import EntityContract.Proofs.Model.Parsing
import EntityContract.Proofs.Validation.Ways

/-!
The contract of a process over any number of calls. The first call that brings a registry whose
entities can all be compiled installs it. The calls before it leave nothing behind, and those after
it change nothing.
-/

namespace EntityContract

/-- The document that a configuration asks for, given the files as they are. -/
def ContractConfig.documentIn (config : ContractConfig) (files : FileTree) :
    Except DocumentError SchemaDocument :=
  ((config.loadDocument : OnFiles _).run files).1

/-- A call for the contract of a process. A bootstrap finds the files of its time. -/
inductive Call where
  | init (registry : Registry)
  | bootstrap (config : ContractConfig) (files : FileTree)
  | global
  | validator (name : String)

namespace Call

/-- The registry that a call brings along, if it can be indexed. -/
def offer? : Call → Option Registry
  | .init registry => some registry
  | .bootstrap config files => ((config.documentIn files).bind SchemaDocument.registry).toOption
  | .global | .validator _ => none

/-- The contract that a call installs where there is none. -/
def contract? (call : Call) : Option Contract :=
  call.offer?.bind fun registry => (Contract.ofRegistry registry).toOption

end Call

namespace Contract

variable {registry : Registry} {contract : Contract}

theorem ofRegistry_ok (h : ofRegistry registry = .ok contract) :
    ∃ validators, registry.compileAll = .ok validators ∧ contract = ⟨registry, validators⟩ := by
  rw [ofRegistry] at h
  cases hall : registry.compileAll with
  | ok validators =>
      rw [hall] at h
      exact ⟨validators, rfl, (Except.ok.inj h).symm⟩
  | error error =>
      rw [hall] at h
      cases error <;> cases h

theorem exists_validator (h : ofRegistry registry = .ok contract) {name : String}
    (hname : registry.contains name = true) :
    ∃ validator, contract.validator name = .ok validator := by
  obtain ⟨set, hall, rfl⟩ := ofRegistry_ok h
  obtain ⟨entity, hentity⟩ := Option.isSome_iff_exists.mp hname
  have hshape : registry.shape? name = some entity.shape := by
    rw [Registry.shape?, hentity]
    rfl
  obtain ⟨validator, hget, -⟩ :=
    Registry.exists_get_of_roots (Registry.compileAll_eq_ok_iff.mp hall)
      (Registry.mem_names_of_shape? hshape)
  refine ⟨validator, ?_⟩
  rw [Contract.validator]
  exact congrArg (Except.mapError _) hget

theorem validator_of_not_contains (h : ofRegistry registry = .ok contract) {name : String}
    (hname : registry.contains name = false) :
    contract.validator name = .error (.unknownReference ⟨name⟩) := by
  obtain ⟨set, hall, rfl⟩ := ofRegistry_ok h
  obtain ⟨-, -, hkeys, -⟩ := Registry.labelled_of_roots (Registry.compileAll_eq_ok_iff.mp hall)
  have hmissing : name ∉ set.roots.map (·.1) := by
    rw [hkeys]
    intro hmem
    obtain ⟨entity, hentity, rfl⟩ := List.mem_map.mp hmem
    have hnone := Option.isSome_eq_false_iff.mp hname
    rw [Option.isNone_iff_eq_none, Registry.get?, List.find?_eq_none] at hnone
    exact hnone entity hentity (beq_self_eq_true entity.name)
  have hget : set.get name = .error ⟨name⟩ := by
    rw [ValidatorSet.get, Association.lookup_eq_none_iff.mpr hmissing]
  rw [Contract.validator]
  exact congrArg (Except.mapError _) hget

end Contract

namespace Installed

/-- What a process holds after one more call. -/
def next (state : Installed) : Call → Installed
  | .init registry => (state.install registry).2
  | .bootstrap config files => (state.bootstrap (config.documentIn files)).2
  | .global | .validator _ => state

/-- What a process holds that has made these calls. -/
def held (calls : List Call) : Installed := calls.foldl next none

theorem install_none (registry : Registry) :
    install none registry =
      (Contract.ofRegistry registry, (Contract.ofRegistry registry).toOption) := by
  rw [install]
  cases Contract.ofRegistry registry <;> rfl

theorem install_some (contract : Contract) (registry : Registry) :
    install (some contract) registry = (.error .alreadyInitialized, some contract) := rfl

theorem bootstrap_of_error {document : Except DocumentError SchemaDocument} {error : DocumentError}
    (h : document.bind SchemaDocument.registry = .error error) (state : Installed) :
    state.bootstrap document = (.error error, state) := by
  rw [bootstrap, h]

theorem bootstrap_of_ok {document : Except DocumentError SchemaDocument} {registry : Registry}
    (h : document.bind SchemaDocument.registry = .ok registry) (state : Installed) :
    state.bootstrap document =
      ((state.install registry).1.mapError .contract, (state.install registry).2) := by
  rw [bootstrap, h]

theorem next_none (call : Call) : next none call = call.contract? := by
  cases call with
  | init registry =>
      rw [next, install_none]
      rfl
  | bootstrap config files =>
      rw [next, Call.contract?, Call.offer?]
      cases hregistry : (config.documentIn files).bind SchemaDocument.registry with
      | error error =>
          rw [bootstrap_of_error hregistry]
          rfl
      | ok registry =>
          rw [bootstrap_of_ok hregistry, install_none]
          rfl
  | _ => rfl

/-- What is installed stays installed. -/
theorem next_some (contract : Contract) (call : Call) :
    next (some contract) call = some contract := by
  cases call with
  | bootstrap config files =>
      rw [next]
      cases hregistry : (config.documentIn files).bind SchemaDocument.registry with
      | error error => rw [bootstrap_of_error hregistry]
      | ok registry => rw [bootstrap_of_ok hregistry, install_some]
  | _ => rfl

theorem foldl_next (state : Installed) (calls : List Call) :
    calls.foldl next state = state.or (calls.findSome? Call.contract?) := by
  induction calls generalizing state with
  | nil => rw [List.foldl_nil, List.findSome?_nil, Option.or_none]
  | cons call calls ih =>
      rw [List.foldl_cons, ih, List.findSome?_cons]
      cases state with
      | none =>
          rw [next_none]
          cases call.contract? <;> rfl
      | some contract => rw [next_some, Option.some_or, Option.some_or]

/-- A process holds the contract of the first call that brought one. -/
theorem held_eq_findSome? (calls : List Call) : held calls = calls.findSome? Call.contract? := by
  rw [held, foldl_next, Option.none_or]

/-- How a process answers that holds no contract. -/
structure Vacant (state : Installed) : Prop where
  holds : state = none
  contract : state.contract = .error .notInitialized
  validator : ∀ name, state.validator name = .error .notInitialized
  /-- A registry is answered with its contract, which is installed, or with the error of it. -/
  install : ∀ registry, state.install registry =
    (Contract.ofRegistry registry, (Contract.ofRegistry registry).toOption)
  bootstrap : ∀ (config : ContractConfig) files,
    let result := ((config.documentIn files).bind SchemaDocument.registry).bind fun registry =>
      (Contract.ofRegistry registry).mapError DocumentError.contract
    state.bootstrap (config.documentIn files) = (result, result.toOption)

/-- How a process answers that holds the contract of a registry. -/
structure Serves (state : Installed) (registry : Registry) : Prop where
  holds : ∃ contract, Contract.ofRegistry registry = .ok contract ∧ state = some contract
  contract : state.contract = Contract.ofRegistry registry
  /-- Whether another registry compiles is not looked at any more. -/
  install : ∀ other, state.install other = (.error .alreadyInitialized, state)
  /-- A document is still loaded and indexed before. -/
  bootstrap : ∀ (config : ContractConfig) files,
    state.bootstrap (config.documentIn files) =
      (((config.documentIn files).bind SchemaDocument.registry).bind fun _ =>
        .error (.contract .alreadyInitialized), state)
  unknown : ∀ name, registry.contains name = false →
    state.validator name = .error (.unknownReference ⟨name⟩)
  validator : ∀ name, registry.contains name = true →
    ∃ validator, state.validator name = .ok validator ∧
      ∀ fresh, Contract.ofRegistry registry = .ok fresh →
        ∃ other, fresh.validator name = .ok other ∧
          ∀ document, validator.validate document = other.validate document

theorem vacant_none : Vacant none where
  holds := rfl
  contract := rfl
  validator := fun _ => rfl
  install := install_none
  bootstrap := by
    intro config files
    cases hregistry : (config.documentIn files).bind SchemaDocument.registry with
    | error error =>
        rw [bootstrap_of_error hregistry]
        rfl
    | ok registry =>
        rw [bootstrap_of_ok hregistry, install_none]
        dsimp only [Except.bind]
        cases Contract.ofRegistry registry <;> rfl

theorem serves_some {registry : Registry} {contract : Contract}
    (h : Contract.ofRegistry registry = .ok contract) : Serves (some contract) registry where
  holds := ⟨contract, h, rfl⟩
  contract := h.symm
  install := install_some contract
  bootstrap := by
    intro config files
    cases hregistry : (config.documentIn files).bind SchemaDocument.registry with
    | error error =>
        rw [bootstrap_of_error hregistry]
        rfl
    | ok other =>
        rw [bootstrap_of_ok hregistry, install_some]
        rfl
  unknown := fun _ => Contract.validator_of_not_contains h
  validator := by
    intro name hname
    obtain ⟨validator, hvalidator⟩ := Contract.exists_validator h hname
    refine ⟨validator, hvalidator, fun fresh hfresh => ⟨validator, ?_, fun _ => rfl⟩⟩
    rw [h] at hfresh
    rw [← Except.ok.inj hfresh]
    exact hvalidator

/-- As long as no call has brought a registry that compiles, the process is vacant. From the first
one that does, the process serves the registry of that call, whatever is called afterwards. -/
theorem held_calls (calls : List Call) :
    ((∀ call ∈ calls, call.contract? = none) → (held calls).Vacant) ∧
    ∀ before call after registry, calls = before ++ call :: after →
      (∀ earlier ∈ before, earlier.contract? = none) → call.offer? = some registry →
      (∃ contract, Contract.ofRegistry registry = .ok contract) →
        (held calls).Serves registry := by
  rw [held_eq_findSome?]
  refine ⟨fun hnone => ?_, fun before call after registry hcalls hbefore hcall hcontract => ?_⟩
  · rw [List.findSome?_eq_none_iff.mpr hnone]
    exact vacant_none
  · obtain ⟨contract, hcontract⟩ := hcontract
    have hfirst : call.contract? = some contract := by
      rw [Call.contract?, hcall, Option.bind_some, hcontract]
      rfl
    rw [hcalls, List.findSome?_append, List.findSome?_eq_none_iff.mpr hbefore, Option.none_or,
      List.findSome?_cons, hfirst]
    exact serves_some hcontract

/-- A node that refers to a leaf, which is missing. -/
def looseRegistry : Registry :=
  ⟨[⟨"Node", .obj [("$ref", .str "#/components/schemas/Leaf")], .ref "Leaf"⟩]⟩

/-- A registry that does not compile, and a document that is not there. -/
def failingCalls : List Call :=
  [.init looseRegistry,
    .bootstrap { ContractConfig.standard with document := some "api.json" } .empty]

theorem held_calls_bundled :
    (held failingCalls).Vacant ∧
      (held (failingCalls ++ .bootstrap .standard .empty :: failingCalls)).Serves
        Bundled.registry := by
  have hfailing : ∀ call ∈ failingCalls, call.contract? = none := by
    have hinit : (Call.init looseRegistry).contract?.isNone = true := by decide +kernel
    have hbootstrap : (Call.bootstrap { ContractConfig.standard with document := some "api.json" }
        .empty).contract?.isNone = true := by decide +kernel
    simp only [failingCalls, List.forall_mem_cons]
    exact ⟨Option.isNone_iff_eq_none.mp hinit, Option.isNone_iff_eq_none.mp hbootstrap, nofun⟩
  have hdocument : ContractConfig.standard.documentIn .empty = .ok SchemaDocument.bundled := rfl
  have hregistry : (Call.bootstrap .standard .empty).offer? = some Bundled.registry := by
    rw [Call.offer?, hdocument, Except.bind, Bundled.registry_bundled]
    rfl
  have hcompiles : (Contract.ofRegistry Bundled.registry).toOption.isSome = true := by
    decide +kernel
  exact ⟨(held_calls failingCalls).1 hfailing,
    (held_calls _).2 failingCalls _ failingCalls Bundled.registry rfl hfailing hregistry
      (exists_ok_of_isSome hcompiles)⟩

end Installed

end EntityContract
