import EntityContract.Validator

/-!
The contract of a process: a registry with all its entities compiled. It is installed once; what
the process holds is a value here, and every operation says what it leaves behind.
-/

namespace EntityContract

structure Contract where
  registry : Registry
  validators : ValidatorSet

/-- Why an operation on the contract fails. -/
inductive ContractError where
  | unknownReference (error : UnknownReference)
  | unfinished
  | notInitialized
  | alreadyInitialized
  deriving DecidableEq, Repr

namespace Contract

def ofRegistry (registry : Registry) : Except ContractError Contract :=
  match registry.compileAll with
  | .ok validators => .ok ⟨registry, validators⟩
  | .error (.unknownReference error) => .error (.unknownReference error)
  | .error .unfinished => .error .unfinished

def validator (contract : Contract) (name : String) : Except ContractError Validator :=
  (contract.validators.get name).mapError .unknownReference

end Contract

namespace ContractError

def message : ContractError → String
  | .unknownReference error => error.message
  | .unfinished => CompileError.unfinished.message
  | .notInitialized => "contract has not been initialized"
  | .alreadyInitialized => "contract is already initialized"

end ContractError

/-- What a process holds: no contract, or the one that was installed. -/
abbrev Installed := Option Contract

namespace Installed

/-- Installs the contract of a registry, unless there is one. -/
def install (state : Installed) (registry : Registry) : Except ContractError Contract × Installed :=
  match state with
  | some _ => (.error .alreadyInitialized, state)
  | none =>
    match Contract.ofRegistry registry with
    | .ok contract => (.ok contract, some contract)
    | .error error => (.error error, none)

def contract (state : Installed) : Except ContractError Contract :=
  match state with
  | some contract => .ok contract
  | none => .error .notInitialized

def validator (state : Installed) (name : String) : Except ContractError Validator := do
  (← state.contract).validator name

end Installed

end EntityContract
