import EntityContract.Arena.Compile
import EntityContract.Validation.Result
import EntityContract.Validation.Sample

/-!
Validators: a node of an arena that documents are checked against. They are compiled from one
entity, from a shape, or from all entities of a registry in one arena.
-/

namespace EntityContract

structure Validator where
  arena : Arena
  root : NodeId
  /-- The entity, unless the validator is made of a shape. -/
  name? : Option String

namespace Validator

/-- Checks a document and normalizes it. -/
def validate (validator : Validator) (document : Json) : ValidationResult :=
  let outcome := Walk.check validator.arena document validator.root []
  match outcome.violations with
  | [] => .valid outcome.output outcome.label?
  | violations => .invalid violations

def minimal (validator : Validator) : Json := Sample.minimal validator.arena validator.root

end Validator

/-- Validators of several entities in one arena. -/
structure ValidatorSet where
  arena : Arena
  roots : List (String × NodeId)

namespace ValidatorSet

def get (set : ValidatorSet) (name : String) : Except UnknownReference Validator :=
  match set.roots.lookup name with
  | some root => .ok ⟨set.arena, root, some name⟩
  | none => .error ⟨name⟩

end ValidatorSet

namespace Registry

/-- The validator of an entity. -/
def compile (registry : Registry) (key : String) : Except CompileError Validator := do
  let (root, arena) ← (Build.complete registry (.ref key)).finish
  return ⟨arena, root, some key⟩

/-- The validator of a shape that refers to entities of the registry. -/
def compileShape (registry : Registry) (shape : Shape) : Except CompileError Validator := do
  let (root, arena) ← (Build.complete registry shape).finish
  return ⟨arena, root, none⟩

def compileAll (registry : Registry) : Except CompileError ValidatorSet := do
  let (roots, arena) ← (Build.roots registry registry.names).finish
  return ⟨arena, roots⟩

end Registry

end EntityContract
