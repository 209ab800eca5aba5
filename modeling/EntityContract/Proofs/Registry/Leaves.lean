import Mathlib.Data.String.Basic
import EntityContract.Proofs.Registry.Satisfaction
import EntityContract.Proofs.Shape.Lowering

/-!
Merging over a whole tree of references and intersections. Whatever the nesting, the merged object
depends on the list of the objects at the leaves: it names what they name, and a field joins what
all leaves declare for its name.
-/

namespace EntityContract

theorem eraseDups_of_nodup {names : List String} (h : names.Nodup) : names.eraseDups = names := by
  induction names with
  | nil => rfl
  | cons name names ih =>
      rw [List.nodup_cons] at h
      rw [List.eraseDups_cons, List.filter_eq_self.mpr, ih h.2]
      intro other hother
      simpa using fun heq : other = name => h.1 (heq ▸ hother)

theorem filter_eraseDups (p : String → Bool) (names : List String) :
    names.eraseDups.filter p = (names.filter p).eraseDups := by
  induction hn : names.length using Nat.strongRecOn generalizing names with
  | ind n ih =>
      cases names with
      | nil => rfl
      | cons name names =>
          have hle := List.length_filter_le (fun other => !other == name) names
          rw [List.length_cons] at hn
          rw [List.eraseDups_cons, List.filter_cons, List.filter_cons, ih _ (by omega) _ rfl,
            List.filter_filter]
          split
          · rw [List.eraseDups_cons, List.filter_filter]
            simp only [Bool.and_comm]
          · rename_i hname
            congr 1
            apply List.filter_congr
            intro other _
            by_cases heq : other = name
            · simp [heq, hname]
            · simp [heq]

/-- A name that occurs on both sides counts where it first occurs. -/
theorem eraseDups_append_eraseDups (names others : List String) :
    (names.eraseDups ++ others.eraseDups).eraseDups = (names ++ others).eraseDups := by
  have hremoved : others.eraseDups.removeAll names.eraseDups =
      (others.removeAll names).eraseDups := by
    have helem : ∀ name : String, names.eraseDups.elem name = names.elem name := by
      intro name
      rw [Bool.eq_iff_iff, List.elem_iff, List.elem_iff, List.mem_eraseDups]
    rw [List.removeAll, List.removeAll, filter_eraseDups]
    simp only [helem]
  rw [List.eraseDups_append, List.eraseDups_append, hremoved,
    eraseDups_of_nodup (nodup_eraseDups names), eraseDups_of_nodup (nodup_eraseDups _)]

theorem ObjectShape.toShape_injective : Function.Injective ObjectShape.toShape := by
  rintro ⟨fields, policy⟩ ⟨fields', policy'⟩ h
  cases h
  rfl

namespace Shape

theorem keys_mergeFields {base overlay : Fields} (h : (base.map (·.1)).Nodup) :
    (mergeFields base overlay).map (·.1) = (base.map (·.1) ++ overlay.map (·.1)).eraseDups := by
  rw [mergeFields]
  induction overlay generalizing base with
  | nil => simpa using (eraseDups_of_nodup h).symm
  | cons field overlay ih =>
      rw [List.foldl_cons, ih (nodup_mergeInto field.1 field.2 h), keys_mergeInto]
      split
      · rename_i hmem
        rw [List.map_cons, List.eraseDups_append, List.eraseDups_append, List.removeAll,
          List.removeAll, List.filter_cons, List.elem_iff.mpr hmem]
        rfl
      · rw [List.map_cons, List.append_assoc, List.singleton_append]

theorem mergePolicy_eq_passthrough_iff {base overlay : UnknownFields} :
    mergePolicy base overlay = .passthrough ↔ base = .passthrough ∨ overlay = .passthrough := by
  rw [mergePolicy]
  split
  · rename_i heither
    exact iff_of_true rfl heither
  · rename_i hneither
    exact iff_of_false nofun hneither

/-- Following more references finds no other object. -/
theorem flattenWith_mono {follow further : String → Option ObjectShape}
    (h : ∀ key object, follow key = some object → further key = some object) {shape : Shape}
    {object : ObjectShape} (hobject : shape.flattenWith follow = some object) :
    shape.flattenWith further = some object := by
  induction shape generalizing object with
  | object fields policy => exact hobject
  | ref key => exact h key object hobject
  | intersection left right ihLeft ihRight =>
      rw [flattenWith] at hobject ⊢
      obtain ⟨leftObject, hleft, hobject⟩ := Option.bind_eq_some_iff.mp hobject
      obtain ⟨rightObject, hright, hobject⟩ := Option.bind_eq_some_iff.mp hobject
      rw [ihLeft hleft, ihRight hright]
      exact hobject
  | _ => cases hobject

end Shape

namespace Registry

/-- The object that a reference comes to, whatever keys are on the way. -/
def chase (registry : Registry) : Nat → String → Option ObjectShape
  | 0, _ => none
  | rounds + 1, key => do
    let shape ← registry.shape? key
    shape.flattenWith (registry.chase rounds)

/-- The shapes at the ends of the references and intersections of a shape, from left to right. -/
inductive Leaves (registry : Registry) : Shape → List Shape → Prop
  | ref {key : String} {shape : Shape} {leaves : List Shape} :
      registry.shape? key = some shape → Leaves registry shape leaves →
        Leaves registry (.ref key) leaves
  | unknown {key : String} : registry.shape? key = none → Leaves registry (.ref key) [.ref key]
  | intersection {left right : Shape} {leaves others : List Shape} :
      Leaves registry left leaves → Leaves registry right others →
        Leaves registry (.intersection left right) (leaves ++ others)
  | leaf {shape : Shape} : (∀ key, shape ≠ .ref key) →
      (∀ left right, shape ≠ .intersection left right) → Leaves registry shape [shape]

/-- What the objects declare for a name, from left to right. -/
def declarations (objects : List ObjectShape) (name : String) : List Shape :=
  objects.filterMap (·.field? name)

/-- The field joins the shapes that are declared for its name: it is required if one of them is, has
otherwise the first default, and is satisfied by what satisfies them all. -/
structure Joins (registry : Registry) (declared : List Shape) (field : Shape) : Prop where
  required_iff : field.isOptional = false ↔ ∃ own ∈ declared, own.isOptional = false
  default_eq : field.isOptional = true → field.default? = declared.findSome? Shape.default?
  satisfies_iff : ∀ value,
    registry.Satisfies field value ↔ ∀ own ∈ declared, registry.Satisfies own value

/-- The object has the names of the objects, in the order of first occurrence, and joins what they
declare. -/
structure Merges (registry : Registry) (objects : List ObjectShape) (object : ObjectShape) :
    Prop where
  names_eq : object.fields.map (·.1) =
    (objects.flatMap fun leaf => leaf.fields.map (·.1)).eraseDups
  joins : ∀ {name : String} {field : Shape}, object.field? name = some field →
    registry.Joins (declarations objects name) field

variable {registry : Registry} {shape : Shape} {leaves others : List Shape} {object : ObjectShape}

section Guard

theorem chase_of_follow {onTheWay : List String} {rounds further : Nat} (hle : rounds ≤ further)
    {key : String} (h : registry.follow onTheWay rounds key = some object) :
    registry.chase further key = some object := by
  induction rounds generalizing onTheWay further key object with
  | zero => exact nomatch h
  | succ rounds ih =>
      obtain ⟨further, rfl⟩ : ∃ n, further = n + 1 := Nat.exists_eq_succ_of_ne_zero (by omega)
      rw [follow] at h
      split at h
      · cases h
      · obtain ⟨shape, hshape, h⟩ := Option.bind_eq_some_iff.mp h
        rw [chase, hshape]
        exact Shape.flattenWith_mono (fun _ _ => ih (by omega)) h

theorem flattens_of_chase {rounds : Nat} {key : String}
    (h : registry.chase rounds key = some object) : registry.Flattens (.ref key) object := by
  induction rounds generalizing key object with
  | zero => exact nomatch h
  | succ rounds ih =>
      rw [chase] at h
      obtain ⟨shape, hshape, h⟩ := Option.bind_eq_some_iff.mp h
      exact .ref hshape (flattens_of_flattenWith (fun _ _ hchase => ih hchase) h)

/-- A reference never leads back to a key on the way, so looking out for that changes nothing. -/
theorem flattenWith_chase (hregistry : registry.Indexed) (shape : Shape) {rounds : Nat}
    (hrounds : registry.size ≤ rounds) :
    shape.flattenWith (registry.chase rounds) = registry.flatten shape := by
  apply Option.ext
  intro object
  rw [flatten_eq_some_iff hregistry]
  constructor
  · exact flattens_of_flattenWith fun _ _ => flattens_of_chase
  · intro h
    exact Shape.flattenWith_mono (fun _ _ => chase_of_follow hrounds)
      ((flatten_eq_some_iff hregistry).mpr h)

end Guard

section Leaves

theorem leaves_toShape (registry : Registry) (object : ObjectShape) :
    registry.Leaves object.toShape [object.toShape] :=
  .leaf (fun _ h => nomatch h) fun _ _ h => nomatch h

theorem Leaves.unique (h : registry.Leaves shape leaves) (h' : registry.Leaves shape others) :
    leaves = others := by
  induction h generalizing others with
  | @ref key shape leaves hshape hleaves ih =>
      cases h' with
      | ref hshape' hleaves' =>
          rw [hshape, Option.some.injEq] at hshape'
          exact ih (hshape' ▸ hleaves')
      | unknown hnone => exact nomatch hshape.symm.trans hnone
      | leaf href => exact absurd rfl (href key)
  | @unknown key hnone =>
      cases h' with
      | ref hshape => exact nomatch hnone.symm.trans hshape
      | unknown => rfl
      | leaf => rfl
  | @intersection left right _ _ _ _ ihLeft ihRight =>
      cases h' with
      | intersection hleft hright => rw [ihLeft hleft, ihRight hright]
      | leaf _ hintersection => exact absurd rfl (hintersection left right)
  | leaf href hintersection =>
      cases h' with
      | ref => exact absurd rfl (href _)
      | unknown => rfl
      | intersection => exact absurd rfl (hintersection _ _)
      | leaf => rfl

theorem exists_leaves_of_unguarded
    (h : ∀ key ∈ shape.unguarded, ∃ leaves, registry.Leaves (.ref key) leaves) :
    ∃ leaves, registry.Leaves shape leaves := by
  induction shape with
  | ref key => exact h key (List.mem_singleton_self key)
  | intersection left right ihLeft ihRight =>
      obtain ⟨leaves, hleft⟩ := ihLeft fun key hkey => h key (List.mem_append_left _ hkey)
      obtain ⟨others, hright⟩ := ihRight fun key hkey => h key (List.mem_append_right _ hkey)
      exact ⟨leaves ++ others, .intersection hleft hright⟩
  | _ => exact ⟨_, .leaf nofun nofun⟩

/-- By induction on the keys that an entity refers to unguarded. -/
theorem Indexed.exists_leaves (hregistry : registry.Indexed) (shape : Shape) :
    ∃ leaves, registry.Leaves shape leaves := by
  have href : ∀ key, ∃ leaves, registry.Leaves (.ref key) leaves := by
    intro key
    induction hregistry.acc_refers key with
    | intro key _ ih =>
        cases hshape : registry.shape? key with
        | none => exact ⟨_, .unknown hshape⟩
        | some shape =>
            obtain ⟨leaves, hleaves⟩ := exists_leaves_of_unguarded fun other hother =>
              ih other (refers_iff.mpr ⟨shape, hshape, hother⟩)
            exact ⟨leaves, .ref hshape hleaves⟩
  exact exists_leaves_of_unguarded fun key _ => href key

theorem Leaves.exists_flattens_iff (h : registry.Leaves shape leaves) :
    (∃ object, registry.Flattens shape object) ↔
      ∀ leaf ∈ leaves, ∃ object : ObjectShape, leaf = object.toShape := by
  induction h with
  | ref hshape _ ih =>
      rw [← ih]
      constructor
      · rintro ⟨object, hobject⟩
        cases hobject with
        | ref hshape' hobject =>
            rw [hshape, Option.some.injEq] at hshape'
            exact ⟨object, hshape' ▸ hobject⟩
      · rintro ⟨object, hobject⟩
        exact ⟨object, .ref hshape hobject⟩
  | unknown hnone =>
      refine iff_of_false ?_ fun h => ?_
      · rintro ⟨object, hobject⟩
        cases hobject with
        | ref hshape => exact nomatch hnone.symm.trans hshape
      · obtain ⟨object, hobject⟩ := h _ List.mem_cons_self
        exact nomatch hobject
  | intersection _ _ ihLeft ihRight =>
      rw [List.forall_mem_append, ← ihLeft, ← ihRight]
      constructor
      · rintro ⟨object, hobject⟩
        cases hobject with
        | intersection hleft hright => exact ⟨⟨_, hleft⟩, ⟨_, hright⟩⟩
      · rintro ⟨⟨leftObject, hleft⟩, ⟨rightObject, hright⟩⟩
        exact ⟨_, .intersection hleft hright⟩
  | leaf href hintersection =>
      rw [List.forall_mem_singleton]
      constructor
      · rintro ⟨object, hobject⟩
        cases hobject with
        | object fields policy => exact ⟨⟨fields, policy⟩, rfl⟩
        | ref => exact absurd rfl (href _)
        | intersection => exact absurd rfl (hintersection _ _)
      · rintro ⟨object, rfl⟩
        exact ⟨object, .object object.fields object.policy⟩

end Leaves

section Merges

theorem joins_singleton (field : Shape) : registry.Joins [field] field where
  required_iff := by simp
  default_eq := fun _ => by simp
  satisfies_iff := fun _ => by simp

theorem Joins.mergeField {declared declared' : List Shape} {ours theirs : Shape}
    (hours : registry.Joins declared ours) (htheirs : registry.Joins declared' theirs) :
    registry.Joins (declared ++ declared') (Shape.mergeField ours theirs) where
  required_iff := by
    rw [Shape.isOptional_mergeField, Bool.and_eq_false_iff, hours.required_iff,
      htheirs.required_iff]
    simp only [List.mem_append, or_and_right, exists_or]
  default_eq := fun hoptional => by
    rw [Shape.isOptional_mergeField, Bool.and_eq_true] at hoptional
    rw [Shape.default?_mergeField hoptional.1 hoptional.2, hours.default_eq hoptional.1,
      htheirs.default_eq hoptional.2, List.findSome?_append]
  satisfies_iff := fun value => by
    rw [← satisfies_present_iff, Shape.present_mergeField, satisfies_both_iff,
      satisfies_present_iff, satisfies_present_iff, hours.satisfies_iff, htheirs.satisfies_iff,
      List.forall_mem_append]

theorem declarations_append (objects others : List ObjectShape) (name : String) :
    declarations (objects ++ others) name = declarations objects name ++ declarations others name :=
  List.filterMap_append

variable {objects objects' : List ObjectShape} {object' : ObjectShape} {name : String}

theorem Merges.nodup (h : registry.Merges objects object) : (object.fields.map (·.1)).Nodup := by
  rw [h.names_eq]
  exact nodup_eraseDups _

/-- What no object declares the merged one does not declare, and conversely. -/
theorem Merges.declarations_eq_nil (h : registry.Merges objects object)
    (hnone : object.field? name = none) : declarations objects name = [] := by
  rw [ObjectShape.field?, Association.lookup_eq_none_iff, h.names_eq, List.mem_eraseDups,
    List.mem_flatMap] at hnone
  refine List.filterMap_eq_nil_iff.mpr fun leaf hleaf => ?_
  exact Association.lookup_eq_none_iff.mpr fun hname => hnone ⟨leaf, hleaf, hname⟩

theorem merges_singleton (h : (object.fields.map (·.1)).Nodup) :
    registry.Merges [object] object where
  names_eq := by
    rw [List.flatMap_singleton, eraseDups_of_nodup h]
  joins := fun {name field} hfield => by
    rw [declarations, List.filterMap_cons, hfield]
    exact joins_singleton field

theorem Merges.merge (h : registry.Merges objects object) (h' : registry.Merges objects' object') :
    registry.Merges (objects ++ objects') (object.merge object') where
  names_eq := by
    rw [ObjectShape.merge, Shape.keys_mergeFields h.nodup, h.names_eq, h'.names_eq,
      eraseDups_append_eraseDups, List.flatMap_append]
  joins := fun {name field} hfield => by
    rw [ObjectShape.field?, ObjectShape.merge, Shape.lookup_mergeFields h'.nodup] at hfield
    rw [declarations_append]
    cases hours : object.field? name with
    | none =>
        rw [← ObjectShape.field?, hours] at hfield
        rw [h.declarations_eq_nil hours]
        exact h'.joins hfield
    | some ours =>
        cases htheirs : object'.field? name with
        | none =>
            rw [← ObjectShape.field?, ← ObjectShape.field?, hours, htheirs] at hfield
            cases hfield
            rw [h'.declarations_eq_nil htheirs, List.append_nil]
            exact h.joins hours
        | some theirs =>
            rw [← ObjectShape.field?, ← ObjectShape.field?, hours, htheirs] at hfield
            cases hfield
            exact (h.joins hours).mergeField (h'.joins htheirs)

/-- Step by step along the tree; the leaves of both sides of an intersection follow each other. -/
theorem Flattens.merges (h : registry.Flattens shape object)
    (hleaves : registry.Leaves shape leaves) :
    ∃ objects : List ObjectShape, leaves = objects.map (·.toShape) ∧
      (object.policy = .passthrough ↔ ∃ leaf ∈ objects, leaf.policy = .passthrough) ∧
      ((∀ leaf ∈ objects, (leaf.fields.map (·.1)).Nodup) → registry.Merges objects object) := by
  induction h generalizing leaves with
  | object fields policy =>
      cases hleaves with
      | leaf =>
          exact ⟨[⟨fields, policy⟩], rfl, by simp, fun hnodup =>
            merges_singleton (hnodup _ List.mem_cons_self)⟩
  | ref hshape _ ih =>
      cases hleaves with
      | ref hshape' hleaves =>
          rw [hshape, Option.some.injEq] at hshape'
          exact ih (hshape' ▸ hleaves)
      | unknown hnone => exact nomatch hshape.symm.trans hnone
      | leaf href => exact absurd rfl (href _)
  | intersection _ _ ihLeft ihRight =>
      cases hleaves with
      | intersection hleft hright =>
          obtain ⟨objects, rfl, hpolicy, hmerges⟩ := ihLeft hleft
          obtain ⟨objects', rfl, hpolicy', hmerges'⟩ := ihRight hright
          refine ⟨objects ++ objects', List.map_append.symm, ?_, fun hnodup => ?_⟩
          · rw [ObjectShape.merge, Shape.mergePolicy_eq_passthrough_iff, hpolicy, hpolicy']
            simp only [List.mem_append, or_and_right, exists_or]
          · rw [List.forall_mem_append] at hnodup
            exact (hmerges hnodup.1).merge (hmerges' hnodup.2)
      | leaf _ hintersection => exact absurd rfl (hintersection _ _)

end Merges

/-- Flattening a tree of references and intersections succeeds where all leaves are objects. If
each leaf names its fields once, the result merges the leaves, however they are nested. -/
theorem flatten_leaves {entries : List (String × Json)}
    (hproper : ∀ entry ∈ entries, entry.2.Proper) (hentries : ofEntries entries = .ok registry)
    (shape : Shape) :
    (∀ rounds, registry.size ≤ rounds →
      shape.flattenWith (registry.chase rounds) = registry.flatten shape) ∧
    ∃ leaves, (∀ others, registry.Leaves shape others ↔ others = leaves) ∧
      ((registry.flatten shape).isSome = true ↔
        ∀ leaf ∈ leaves, ∃ object : ObjectShape, leaf = object.toShape) ∧
      ∀ object, registry.flatten shape = some object →
        ∃ objects : List ObjectShape, leaves = objects.map (·.toShape) ∧
          (object.policy = .passthrough ↔ ∃ leaf ∈ objects, leaf.policy = .passthrough) ∧
          ((∀ leaf ∈ objects, (leaf.fields.map (·.1)).Nodup) → registry.Merges objects object) := by
  have hregistry := indexed_of_ofEntries hproper hentries
  obtain ⟨leaves, hleaves⟩ := hregistry.exists_leaves shape
  refine ⟨fun rounds => flattenWith_chase hregistry shape, leaves,
    fun others => ⟨fun hothers => hothers.unique hleaves, fun heq => heq ▸ hleaves⟩, ?_,
    fun object hobject => ((flatten_eq_some_iff hregistry).mp hobject).merges hleaves⟩
  rw [Option.isSome_iff_exists, ← hleaves.exists_flattens_iff]
  exact exists_congr fun object => flatten_eq_some_iff hregistry

/-- Something with a name, and of a plain kind unless another one is given. -/
def namedDefinition : Json :=
  .obj [("type", .str "object"), ("required", .arr [.str "name"]), ("properties", .obj [
    ("name", .obj [("type", .str "string")]),
    ("kind", .obj [("type", .str "string"), ("default", .str "plain")])])]

def namedObject : ObjectShape :=
  ⟨[("name", .string .any), ("kind", .optional (.string .any) (some (.str "plain")))], .passthrough⟩

def namedRegistry : Registry := ⟨[⟨"Named", namedDefinition, namedObject.toShape⟩]⟩

def sizedObject : ObjectShape :=
  ⟨[("size", .integer), ("kind", .optional .unknown none)], .strip⟩

theorem ofEntries_namedDefinition : ofEntries [("Named", namedDefinition)] = .ok namedRegistry := by
  rfl

theorem flatten_leaves_named : ∃ object,
    namedRegistry.flatten (.intersection sizedObject.toShape (.ref "Named")) = some object ∧
      object.policy = .passthrough ∧ namedRegistry.Merges [sizedObject, namedObject] object := by
  have hproper : ∀ entry ∈ [("Named", namedDefinition)], entry.2.Proper := by
    simp [namedDefinition]
  have htree : namedRegistry.Leaves (.intersection sizedObject.toShape (.ref "Named"))
      ([sizedObject, namedObject].map (·.toShape)) :=
    .intersection (leaves_toShape _ sizedObject) (.ref rfl (leaves_toShape _ namedObject))
  obtain ⟨-, leaves, hleaves, -, hmerges⟩ := flatten_leaves hproper ofEntries_namedDefinition
    (.intersection sizedObject.toShape (.ref "Named"))
  obtain ⟨objects, hobjects, hpolicy, hmerged⟩ := hmerges _ rfl
  have heq : objects = [sizedObject, namedObject] :=
    (List.map_inj_right fun _ _ h => ObjectShape.toShape_injective h).mp
      (hobjects.symm.trans ((hleaves _).mp htree).symm)
  subst heq
  exact ⟨_, rfl, by rfl, hmerged (by decide)⟩

example : (sizedObject.merge namedObject).fields =
    [("size", .integer),
      ("kind", .optional (.intersection .unknown (.string .any)) (some (.str "plain"))),
      ("name", .string .any)] := by
  rfl

/-- An object that was not read from a definition may name a field twice. -/
def repeatedObject : ObjectShape := ⟨[("a", .string .any), ("a", .string .any)], .strip⟩

/-- Merged with an object without fields, it names the field twice still. -/
theorem flatten_repeated : ∃ registry : Registry, ofEntries [] = .ok registry ∧
    registry.Leaves (.intersection repeatedObject.toShape (.object [] .strip))
      [repeatedObject.toShape, .object [] .strip] ∧
    ∃ object, registry.flatten (.intersection repeatedObject.toShape (.object [] .strip)) =
        some object ∧
      object.fields.map (·.1) ≠ ([repeatedObject, ⟨[], .strip⟩].flatMap fun leaf =>
        leaf.fields.map (·.1)).eraseDups :=
  ⟨⟨[]⟩, by rfl, .intersection (leaves_toShape _ repeatedObject) (leaves_toShape _ ⟨[], .strip⟩),
    _, rfl, by decide⟩

end Registry

end EntityContract
