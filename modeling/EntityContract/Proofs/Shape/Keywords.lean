import EntityContract.Proofs.Shape.Lowering

/-!
The keywords that a definition is read by. They are asked in a fixed order, and the first one that
is written decides: the shape is the one that it describes by itself, whatever else is written.
-/

namespace EntityContract

namespace Shape

/-- The keywords that are asked before `type`. -/
inductive Keyword where
  | ref
  | allOf
  | anyOf
  | oneOf
  | const
  | enum
  deriving DecidableEq

/-- The shapes of a list of definitions. -/
def ofList (keyword : String) : Json → Except DefinitionError (List Shape)
  | .arr definitions => ofDefinitions definitions
  | _ => .error (.notAnArray keyword)

namespace Keyword

def name : Keyword → String
  | .ref => "$ref"
  | .allOf => "allOf"
  | .anyOf => "anyOf"
  | .oneOf => "oneOf"
  | .const => "const"
  | .enum => "enum"

/-- The order in which they are asked. -/
def all : List Keyword := [.ref, .allOf, .anyOf, .oneOf, .const, .enum]

/-- The shape that the keyword by itself describes. -/
def shape (argument : Json) : Keyword → Except DefinitionError Shape
  | .ref => ofPointer argument
  | .allOf => do
    match ← ofList "allOf" argument with
    | [] => .error (.empty "allOf")
    | first :: rest => .ok (rest.foldl .intersection first)
  | .anyOf | .oneOf => do
    match ← ofList unionKeyword argument with
    | [] => .error (.empty unionKeyword)
    | variants => .ok (.union variants)
  | .const => .ok (.literal argument)
  | .enum => ofEnum argument

/-- The first keyword that is written, and what is written there. -/
def first? (members : Members) : Option (Keyword × Json) :=
  all.findSome? fun keyword => (members.lookup keyword.name).map (keyword, ·)

theorem name_injective : Function.Injective name := by
  intro keyword other h
  cases keyword <;> cases other <;> first | rfl | exact absurd h (by decide)

variable {members : Members} {keyword first : Keyword} {argument : Json}

theorem exists_first? (h : members.lookup keyword.name = some argument) :
    ∃ first argument, first? members = some (first, argument) := by
  cases hfirst : first? members with
  | some found => exact ⟨found.1, found.2, rfl⟩
  | none =>
      have hnone := List.findSome?_eq_none_iff.mp hfirst keyword (by cases keyword <;> decide)
      rw [h] at hnone
      exact nomatch hnone

theorem lookup_of_first? (h : first? members = some (first, argument)) :
    members.lookup first.name = some argument := by
  obtain ⟨keyword, -, hkeyword⟩ := List.exists_of_findSome?_eq_some h
  obtain ⟨found, hlookup, heq⟩ := Option.map_eq_some_iff.mp hkeyword
  cases heq
  exact hlookup

/-- Leaving out another keyword than the first one makes no difference. -/
theorem first?_erase (h : first? members = some (first, argument)) (hne : first ≠ keyword) :
    first? (Members.erase keyword.name members) = some (first, argument) := by
  obtain ⟨before, other, after, hall, hother, hbefore⟩ := List.findSome?_eq_some_iff.mp h
  obtain ⟨found, hlookup, heq⟩ := Option.map_eq_some_iff.mp hother
  cases heq
  refine List.findSome?_eq_some_iff.mpr ⟨before, first, after, hall, ?_, fun earlier hearlier => ?_⟩
  · rw [Members.lookup_erase_of_ne (name_injective.ne hne), hlookup]
    rfl
  · by_cases heq : earlier = keyword
    · rw [heq, Members.lookup_erase_self]
      rfl
    · rw [Members.lookup_erase_of_ne (name_injective.ne heq)]
      exact hbefore earlier hearlier

end Keyword

theorem shapesAt_eq (key keyword : String) (members : Members) :
    shapesAt key keyword members = (members.lookup key).map (ofList keyword) := by
  induction members with
  | nil => rfl
  | cons member members ih =>
      obtain ⟨other, definition⟩ := member
      rw [List.lookup_cons]
      by_cases hkey : key = other
      · cases definition <;> simp [shapesAt, ofList, hkey]
      · rw [beq_false_of_ne hkey]
        cases definition <;> simp [shapesAt, Ne.symm hkey, ih]

/-- The first keyword decides. -/
theorem ofDefinition_of_first? {members : Members} {first : Keyword} {argument : Json}
    (h : Keyword.first? members = some (first, argument)) :
    ofDefinition (.obj members) = first.shape argument := by
  rw [ofDefinition, shapesAt_eq, shapesAt_eq, shapesAt_eq]
  simp only [Keyword.first?, Keyword.all, Keyword.name, List.findSome?_cons,
    List.findSome?_nil] at h
  cases href : members.lookup "$ref" with
  | some pointer =>
      rw [href] at h
      cases h
      rfl
  | none =>
  cases hallOf : members.lookup "allOf" with
  | some parts =>
      rw [href, hallOf] at h
      cases h
      rfl
  | none =>
  cases hanyOf : members.lookup "anyOf" with
  | some variants =>
      rw [href, hallOf, hanyOf] at h
      cases h
      rfl
  | none =>
  cases honeOf : members.lookup "oneOf" with
  | some variants =>
      rw [href, hallOf, hanyOf, honeOf] at h
      cases h
      rfl
  | none =>
  cases hconst : members.lookup "const" with
  | some value =>
      rw [href, hallOf, hanyOf, honeOf, hconst] at h
      cases h
      rfl
  | none =>
  cases henum : members.lookup "enum" with
  | some values =>
      rw [href, hallOf, hanyOf, honeOf, hconst, henum] at h
      cases h
      rfl
  | none =>
      rw [href, hallOf, hanyOf, honeOf, hconst, henum] at h
      cases h

/-- Without any keyword that is asked for, a definition describes all values. -/
theorem ofDefinition_of_no_keyword {members : Members}
    (hkeywords : Keyword.first? members = none) (htype : members.lookup "type" = none)
    (hobject : isObjectDefinition members = false) :
    ofDefinition (.obj members) = .ok .unknown := by
  have hnone : ∀ keyword : Keyword, members.lookup keyword.name = none := by
    intro keyword
    have hlookup := List.findSome?_eq_none_iff.mp hkeywords keyword (by cases keyword <;> decide)
    exact Option.map_eq_none_iff.mp hlookup
  have href : members.lookup "$ref" = none := hnone .ref
  have hallOf : members.lookup "allOf" = none := hnone .allOf
  have hanyOf : members.lookup "anyOf" = none := hnone .anyOf
  have honeOf : members.lookup "oneOf" = none := hnone .oneOf
  have hconst : members.lookup "const" = none := hnone .const
  have henum : members.lookup "enum" = none := hnone .enum
  rw [ofDefinition, shapesAt_eq, shapesAt_eq, shapesAt_eq, href, hallOf, hanyOf, honeOf, hconst,
    henum, htype]
  simp [hobject]

end Shape

end EntityContract
