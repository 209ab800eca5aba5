import Mathlib.Data.List.Forall2
import Mathlib.Logic.Relation
import EntityContract.Proofs.Arena.Building
import EntityContract.Proofs.Registry.Permutation
import EntityContract.Proofs.Shape.Orderly
import EntityContract.Proofs.Shape.Requirement
import EntityContract.Proofs.Validation.Objects

/-!
From definitions to arenas: shapes are lowered orderly, merging keeps them so, and compilation
turns them into objects that name their fields once. Main statement: `orderly_throughout`.
-/

namespace EntityContract

open Relation

namespace Registry

variable {registry : Registry}

/-- All shapes of the entities are tidy. -/
def Tidy (registry : Registry) : Prop :=
  ∀ key shape, registry.shape? key = some shape → shape.Everywhere Shape.Tidy

/-- What a tidy shape comes down to is an orderly object, as every merge on the way is. -/
theorem Flattens.orderly (hregistry : registry.Tidy) {shape : Shape} {object : ObjectShape}
    (h : registry.Flattens shape object) (hshape : shape.Everywhere Shape.Tidy) :
    object.toShape.Orderly := by
  induction h with
  | object fields policy => exact ⟨rfl, hshape⟩
  | ref hkey _ ih => exact ih (hregistry _ _ hkey)
  | intersection _ _ ihLeft ihRight =>
      obtain ⟨-, hleft, hright⟩ := Shape.Everywhere.intersection_iff.mp hshape
      exact (ihLeft hleft).merge (ihRight hright)

theorem tidy_of_ofEntries {entries : List (String × Json)}
    (hproper : ∀ entry ∈ entries, entry.2.Proper) (hentries : ofEntries entries = .ok registry) :
    registry.Tidy := by
  intro key shape hshape
  obtain ⟨entity, hget, rfl⟩ := Option.map_eq_some_iff.mp hshape
  obtain ⟨hreads, -⟩ := ofEntries_eq_ok_iff.mp hentries
  obtain ⟨entry, hentry, hread⟩ :=
    Pairing.exists_of_mem_right hreads (List.mem_of_find?_eq_some hget)
  exact (Shape.orderly_ofDefinition (hproper entry hentry) hread.shape).everywhere

end Registry

/-- No two fields have one name, if the node is an object. -/
def Node.NamesOnce : Node → Prop
  | .object fields _ => (fields.map (·.name)).Nodup
  | _ => True

def Builder.NamesOnce (builder : Builder) : Prop := ∀ node ∈ builder.nodes, node.NamesOnce

namespace Builder

variable {builder : Builder} {node : Node}

theorem NamesOnce.push (h : builder.NamesOnce) (hnode : node.NamesOnce) :
    NamesOnce { builder with nodes := builder.nodes.push node } := by
  intro other hother
  rcases Array.mem_push.mp hother with hother | rfl
  · exact h other hother
  · exact hnode

theorem NamesOnce.set (h : builder.NamesOnce) (hnode : node.NamesOnce) (slot : NodeId) :
    NamesOnce { builder with nodes := builder.nodes.setIfInBounds slot node } := by
  intro other hother
  rcases Array.mem_or_eq_of_mem_setIfInBounds hother with hother | rfl
  · exact h other hother
  · exact hnode

theorem NamesOnce.reserved (h : builder.NamesOnce) (key : String) :
    (Build.reserved key builder).NamesOnce :=
  h.push trivial

end Builder

namespace Build

variable {α β : Type} {p : α → Prop} {q : β → Prop}

/-- The step keeps the names of fields apart, and its result meets the condition. -/
def Keeps (build : Build α) (p : α → Prop) : Prop :=
  ∀ (before after : Builder) (result : α), before.NamesOnce → build before = .ok (result, after) →
    after.NamesOnce ∧ p result

theorem Keeps.pure {value : α} (h : p value) : Keeps (pure value) p := by
  intro before after result hbefore hrun
  obtain ⟨rfl, rfl⟩ := pure_eq_ok_iff.mp hrun
  exact ⟨hbefore, h⟩

theorem Keeps.bind {x : Build α} {f : α → Build β} (hx : Keeps x p)
    (hf : ∀ value, p value → Keeps (f value) q) : Keeps (x >>= f) q := by
  intro before after result hbefore hrun
  obtain ⟨value, middle, hvalue, hrun⟩ := bind_eq_ok_iff.mp hrun
  obtain ⟨hmiddle, hp⟩ := hx _ _ _ hbefore hvalue
  exact hf value hp _ _ _ hmiddle hrun

theorem Keeps.throw (error : CompileError) : Keeps (throw error) p :=
  fun _ _ _ _ hrun => nomatch hrun

/-- One step after the other, each with a result that is related to what it is run on. -/
theorem Keeps.mapM {f : α → Build β} {r : β → α → Prop} {xs : List α}
    (h : ∀ x ∈ xs, Keeps (f x) (r · x)) :
    Keeps (xs.mapM f) fun results => List.Forall₂ r results xs := by
  induction xs with
  | nil => exact Keeps.pure .nil
  | cons x xs ih =>
      rw [List.forall_mem_cons] at h
      rw [List.mapM_cons]
      refine h.1.bind fun result hresult => (ih h.2).bind fun results hresults => ?_
      exact Keeps.pure (.cons hresult hresults)

theorem keeps_push {node : Node} (h : node.NamesOnce) : Keeps (push node) fun _ => True := by
  intro before after id hbefore hrun
  obtain ⟨-, rfl⟩ := push_eq_ok_iff.mp hrun
  exact ⟨hbefore.push h, trivial⟩

/-- Whatever tidy shape is compiled, the names of fields are kept apart. -/
def KeepsTidy (compile : Shape → Build NodeId) : Prop :=
  ∀ source, source.Everywhere Shape.Tidy → Keeps (compile source) fun _ => True

variable {registry : Registry} {compile enter : Shape → Build NodeId}

/-- The node of a field has its name. -/
def NamedFor (node : FieldNode) (declared : String × Shape) : Prop := node.name = declared.1

theorem keeps_object (hcompile : KeepsTidy compile) {merged : ObjectShape}
    (h : merged.toShape.Everywhere Shape.Tidy) : Keeps (object compile merged) fun _ => True := by
  obtain ⟨hnodup, hfields⟩ := Shape.Everywhere.object_iff.mp h
  have hfield : ∀ declared ∈ merged.fields,
      Keeps (field compile declared) (NamedFor · declared) := fun declared hmem =>
    (hcompile _ (hfields declared hmem).present).bind fun _ _ => Keeps.pure rfl
  refine (Keeps.mapM hfield).bind fun nodes hnodes => keeps_push ?_
  have hnames : nodes.map (·.name) = merged.fields.map (·.1) := by
    rwa [← List.forall₂_eq_eq_eq, List.forall₂_map_left_iff, List.forall₂_map_right_iff]
  rw [Node.NamesOnce, hnames]
  exact hnodup

theorem keeps_variants (hcompile : KeepsTidy compile) {shapes : List Shape}
    (h : ∀ shape ∈ shapes, shape.Everywhere Shape.Tidy) (number : Nat) :
    Keeps (variants compile number shapes) fun _ => True := by
  induction shapes generalizing number with
  | nil => exact Keeps.pure trivial
  | cons shape shapes ih =>
      rw [List.forall_mem_cons] at h
      rw [variants]
      refine (hcompile shape h.1).bind fun _ _ => (ih h.2 (number + 1)).bind fun _ _ => ?_
      exact Keeps.pure trivial

/-- An entity gets its place before its shape is compiled, and fills it afterwards. -/
theorem keeps_entity (hregistry : registry.Tidy) (hcompile : KeepsTidy compile) (key : String) :
    Keeps (entity registry compile key) fun _ => True := by
  intro before after id hbefore hrun
  refine ⟨?_, trivial⟩
  rw [entity_apply] at hrun
  split at hrun
  · cases hrun
    exact hbefore
  split at hrun
  · exact nomatch hrun
  · rename_i shape hshape
    cases hinner : compile shape (reserved key before) with
    | error error =>
        rw [hinner] at hrun
        exact nomatch hrun
    | ok result =>
        rw [hinner] at hrun
        cases hrun
        have htidy := hregistry key shape hshape
        have hnode : (Node.entity key result.1).NamesOnce := trivial
        obtain ⟨hmiddle, -⟩ := hcompile shape htidy _ _ _ (hbefore.reserved key) hinner
        exact hmiddle.set hnode _

/-- One constructor of a shape after the other. -/
theorem keeps_shapeWith (hregistry : registry.Tidy) (henter : KeepsTidy enter) (fuel : Nat) :
    KeepsTidy (shapeWith registry enter fuel) := by
  induction fuel with
  | zero => exact fun _ _ => Keeps.throw _
  | succ fuel ih =>
      intro source hsource
      cases source with
      | array item =>
          have hitem := (Shape.Everywhere.array_iff.mp hsource).2
          exact (ih item hitem).bind fun _ _ => keeps_push trivial
      | record value =>
          have hvalue := (Shape.Everywhere.record_iff.mp hsource).2
          exact (ih value hvalue).bind fun _ _ => keeps_push trivial
      | object fields policy =>
          have hobject : (ObjectShape.mk fields policy).toShape.Everywhere Shape.Tidy := hsource
          exact keeps_object ih hobject
      | optional inner default? => exact ih inner (Shape.Everywhere.optional_iff.mp hsource).2
      | union shapes =>
          have hvariants := (Shape.Everywhere.union_iff.mp hsource).2
          exact (keeps_variants ih hvariants 1).bind fun _ _ => keeps_push trivial
      | intersection left right =>
          rw [shapeWith]
          cases hflatten : registry.flatten (.intersection left right) with
          | some merged =>
              have horderly := (Registry.flattens_of_flatten hflatten).orderly hregistry hsource
              exact keeps_object ih horderly.everywhere
          | none =>
              obtain ⟨-, hleft, hright⟩ := Shape.Everywhere.intersection_iff.mp hsource
              refine (ih left hleft).bind fun _ _ => (ih right hright).bind fun _ _ => ?_
              exact keeps_push trivial
      | ref key => exact keeps_entity hregistry henter key
      | _ => exact keeps_push trivial

theorem keeps_shapeWithin (hregistry : registry.Tidy) (depth entities : Nat) :
    KeepsTidy (shapeWithin registry depth entities) := by
  induction entities with
  | zero => exact fun _ _ => Keeps.throw _
  | succ entities ih => exact keeps_shapeWith hregistry ih depth

theorem keeps_complete (hregistry : registry.Tidy) : KeepsTidy (complete registry) :=
  fun source => keeps_shapeWithin hregistry _ _ source

/-- An entity is compiled whatever its key, which need not be one that a definition may refer to. -/
theorem keeps_complete_ref (hregistry : registry.Tidy) (key : String) :
    Keeps (complete registry (.ref key)) fun _ => True := by
  rw [complete, shape, shapeWithin]
  cases registry.compileDepth (.ref key) with
  | zero => exact Keeps.throw _
  | succ depth => exact keeps_entity hregistry (keeps_shapeWithin hregistry (depth + 1) _) key

theorem keeps_roots (hregistry : registry.Tidy) (keys : List String) :
    Keeps (roots registry keys) fun _ => True := by
  have hroot : ∀ key ∈ keys,
      Keeps (do return (key, ← complete registry (.ref key))) fun _ => True :=
    fun key _ => (keeps_complete_ref hregistry key).bind fun _ _ => Keeps.pure trivial
  intro before after result hbefore hrun
  exact ⟨(Keeps.mapM (r := fun _ _ => True) hroot _ _ _ hbefore hrun).1, trivial⟩

/-- No object of a finished arena has two fields of one name. -/
theorem namesOnce_of_finish {build : Build α} (h : Keeps build p) {result : α} {arena : Arena}
    (hfinish : build.finish = .ok (result, arena)) (id : NodeId) : (arena.node id).NamesOnce := by
  obtain ⟨builder, hrun, rfl⟩ := finish_eq_ok_iff.mp hfinish
  obtain ⟨hnodes, -⟩ := h _ _ _ (fun _ hnode => absurd hnode (Array.not_mem_empty _)) hrun
  rw [Arena.node]
  cases hnode : builder.nodes[id]? with
  | none => trivial
  | some node => exact hnodes node (Array.mem_of_getElem? hnode)

end Build

namespace Registry

variable {registry : Registry}

/-- The arenas that the registry is compiled into: for an entity, for all of them, or for a tidy
shape. -/
inductive Arises (registry : Registry) : Arena → Prop
  | entity {key : String} {validator : Validator} :
      registry.compile key = .ok validator → Arises registry validator.arena
  | all {set : ValidatorSet} : registry.compileAll = .ok set → Arises registry set.arena
  | shape {source : Shape} {validator : Validator} : source.Everywhere Shape.Tidy →
      registry.compileShape source = .ok validator → Arises registry validator.arena

theorem Arises.namesOnce (hregistry : registry.Tidy) {arena : Arena} (h : registry.Arises arena)
    (id : NodeId) : (arena.node id).NamesOnce := by
  cases h with
  | entity hcompile =>
      obtain ⟨⟨root, arena⟩, hfinish, hcompile⟩ := bind_eq_ok_iff.mp hcompile
      cases hcompile
      exact Build.namesOnce_of_finish (Build.keeps_complete_ref hregistry _) hfinish id
  | all hcompile =>
      exact Build.namesOnce_of_finish (Build.keeps_roots hregistry _)
        (compileAll_eq_ok_iff.mp hcompile) id
  | shape hsource hcompile =>
      obtain ⟨⟨root, arena⟩, hfinish, hcompile⟩ := bind_eq_ok_iff.mp hcompile
      cases hcompile
      exact Build.namesOnce_of_finish (Build.keeps_complete hregistry _ hsource) hfinish id

/-- Lowering gives orderly shapes, whose objects require what their keywords do; merging keeps
objects orderly; and whatever is compiled, a field of an object is the only one of its name. -/
theorem orderly_throughout {entries : List (String × Json)}
    (hproper : ∀ entry ∈ entries, entry.2.Proper) (hentries : ofEntries entries = .ok registry) :
    (∀ (definition : Json) (shape : Shape), definition.Proper →
      Shape.ofDefinition definition = .ok shape → shape.Orderly ∧
        ∀ fields policy, .object fields policy ∈ shape.subshapes →
          ∃ members, ReflTransGen Json.Part (.obj members) definition ∧
            Shape.ofKeywords members = .ok (.object fields policy) ∧
            ∀ field ∈ fields, field.2.isOptional = false ↔ Shape.Requires members field.1) ∧
    (∀ ours theirs : ObjectShape, ours.toShape.Orderly → theirs.toShape.Orderly →
      (ours.merge theirs).toShape.Orderly) ∧
    ∀ arena, registry.Arises arena → ∀ id fields policy, arena.node id = .object fields policy →
      (fields.map (·.name)).Nodup ∧
        ∀ name field,
          FieldNode.find? fields name = some field ↔ field ∈ fields ∧ field.name = name := by
  refine ⟨fun definition shape hdefinition hshape =>
      ⟨Shape.orderly_ofDefinition hdefinition hshape, fun fields policy hmem => ?_⟩,
    fun ours theirs => Shape.Orderly.merge, fun arena harena id fields policy hnode => ?_⟩
  · obtain ⟨members, hinside, hkeywords⟩ := Shape.exists_keywords hdefinition hshape hmem
    have hmembers : (Json.obj members).Proper := by
      rcases reflTransGen_iff_eq_or_transGen.mp hinside with rfl | hinside
      · exact hdefinition
      · exact Json.Inside.proper hinside hdefinition
    exact ⟨members, hinside, hkeywords,
      Shape.isOptional_eq_false_iff_requires hmembers hkeywords⟩
  · have hnames := harena.namesOnce (tidy_of_ofEntries hproper hentries) id
    rw [hnode] at hnames
    refine ⟨hnames, fun name field => ⟨FieldNode.mem_of_find?, ?_⟩⟩
    rintro ⟨hfield, rfl⟩
    exact FieldNode.find?_of_mem hnames hfield

/-- A card has a title, and a rank that is 0 unless it is given. -/
def cardDefinition : Json :=
  .obj [("type", .str "object"), ("required", .arr [.str "title", .str "rank", .str "title"]),
    ("properties", .obj [("title", .obj [("type", .str "string")]),
      ("rank", .obj [("type", .str "integer"), ("default", .num (.int 0))])])]

/-- A card whose rank is given, by its owner. -/
def pinnedDefinition : Json :=
  .obj [("allOf", .arr [.obj [("$ref", .str "#/components/schemas/Card")],
    .obj [("required", .arr [.str "rank", .str "owner"]),
      ("properties", .obj [("rank", .obj [("type", .str "integer")])])]])]

def cardShape : Shape :=
  .object [("title", .string .any), ("rank", .optional .integer (some (.num (.int 0))))]
    .passthrough

def pinnedShape : Shape :=
  .intersection (.ref "Card") (.object [("rank", .integer), ("owner", .unknown)] .passthrough)

def cardRegistry : Registry :=
  ⟨[⟨"Card", cardDefinition, cardShape⟩, ⟨"Pinned", pinnedDefinition, pinnedShape⟩]⟩

theorem ofEntries_cardDefinition :
    ofEntries [("Card", cardDefinition), ("Pinned", pinnedDefinition)] = .ok cardRegistry := by
  have hcard : Reads ("Card", cardDefinition) (cardRegistry.entities[0]) :=
    ⟨rfl, rfl, by rfl, by rfl⟩
  have hpinned : Reads ("Pinned", pinnedDefinition) (cardRegistry.entities[1]) :=
    ⟨rfl, rfl, by rfl, by with_unfolding_all rfl⟩
  exact ofEntries_of_reads (.cons hcard (.cons hpinned .nil)) (by decide) (by rfl)

def pinnedFields : List FieldNode :=
  [⟨"title", 1, true, none⟩, ⟨"rank", 2, true, none⟩, ⟨"owner", 3, true, none⟩]

def pinnedArena : Arena :=
  ⟨#[.entity "Pinned" 4, .string .any, .integer, .unknown, .object pinnedFields .passthrough]⟩

/-- A card requires its title, which is listed twice, and not its rank, which has a default. A
pinned card has one field for the rank, and requires it. -/
theorem orderly_throughout_pinned :
    pinnedShape.Orderly ∧
    (∃ members, Shape.ofKeywords members = .ok cardShape ∧
      Shape.Requires members "title" ∧ ¬Shape.Requires members "rank") ∧
    (pinnedFields.map (·.name)).Nodup ∧
      FieldNode.find? pinnedFields "rank" = some ⟨"rank", 2, true, none⟩ := by
  have hproper : ∀ entry ∈ [("Card", cardDefinition), ("Pinned", pinnedDefinition)],
      entry.2.Proper := by
    simp [cardDefinition, pinnedDefinition]
  obtain ⟨hlowered, -, hcompiled⟩ := orderly_throughout hproper ofEntries_cardDefinition
  have hpinned : Shape.ofDefinition pinnedDefinition = .ok pinnedShape := by with_unfolding_all rfl
  have hcard : Shape.ofDefinition cardDefinition = .ok cardShape := by rfl
  obtain ⟨horderly, -⟩ := hlowered _ _ (hproper ("Pinned", pinnedDefinition) (by simp)) hpinned
  obtain ⟨-, hobjects⟩ := hlowered _ _ (hproper _ List.mem_cons_self) hcard
  obtain ⟨members, -, hkeywords, hrequired⟩ := hobjects _ _ cardShape.mem_subshapes_self
  have hcompile : cardRegistry.compile "Pinned" = .ok ⟨pinnedArena, 0, some "Pinned"⟩ := by rfl
  obtain ⟨hnodup, hfind⟩ := hcompiled _ (.entity hcompile) 4 pinnedFields .passthrough rfl
  refine ⟨horderly, ⟨members, hkeywords, ?_, ?_⟩, hnodup, ?_⟩
  · exact (hrequired ("title", .string .any) (by simp)).mp rfl
  · have hrank := hrequired ("rank", .optional .integer (some (.num (.int 0)))) (by simp)
    exact fun hrequires => absurd (hrank.mpr hrequires) (by decide)
  · exact (hfind _ _).mpr ⟨by simp [pinnedFields], rfl⟩

end Registry

end EntityContract
