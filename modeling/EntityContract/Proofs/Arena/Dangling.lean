import Mathlib.Logic.Relation
import EntityContract.Proofs.Arena.Completion
import EntityContract.Proofs.Registry.Permutation
import EntityContract.Proofs.Shape.Mentions

/-!
Dangling references. Compiling does not go to every key that a shape refers to: objects are merged,
equal fields count once, and entities are remembered. Nevertheless it succeeds only if all keys that
are used, directly or through other entities, are registered, and a key that it reports is used and
not registered. Main statement: `compile_dangling`.
-/

namespace EntityContract

open Relation

namespace Registry

variable {registry : Registry} {source shape other : Shape} {object : ObjectShape} {key : String}

/-- The entity of the one key refers to the other key. -/
def Uses (registry : Registry) (key other : String) : Prop :=
  ∃ shape, registry.shape? key = some shape ∧ other ∈ shape.references

theorem uses_of_mentions {next : String} (hshape : registry.shape? key = some shape)
    (hnext : next ∈ shape.mentions) : registry.Uses key next :=
  ⟨shape, hshape, Shape.mem_references_iff.mpr hnext⟩

theorem contains_eq (registry : Registry) (key : String) :
    registry.contains key = (registry.shape? key).isSome :=
  Option.isSome_map.symm

theorem exists_shape?_of_mem_names (h : key ∈ registry.names) :
    ∃ shape, registry.shape? key = some shape := by
  obtain ⟨entity, hentity, hname⟩ := List.mem_map.mp h
  have hfound : (registry.get? key).isSome = true :=
    List.find?_isSome.mpr ⟨entity, hentity, beq_iff_eq.mpr hname⟩
  exact Option.isSome_iff_exists.mp (registry.contains_eq key ▸ hfound)

section Blame

/-- The fields of the object refer to keys that the shape uses. -/
theorem Flattens.exists_uses (h : registry.Flattens shape object)
    (hkey : key ∈ Shape.mentionsFields object.fields) :
    ∃ first ∈ shape.mentions, ReflTransGen registry.Uses first key := by
  induction h with
  | object fields policy => exact ⟨key, hkey, .refl⟩
  | @ref name shape object hshape _ ih =>
      obtain ⟨first, hfirst, hpath⟩ := ih hkey
      exact ⟨name, List.mem_singleton.mpr rfl, hpath.head (uses_of_mentions hshape hfirst)⟩
  | intersection _ _ ihLeft ihRight =>
      rcases Shape.mem_mentionsFields_mergeFields_iff.mp hkey with hkey | hkey
      · obtain ⟨first, hfirst, hpath⟩ := ihLeft hkey
        exact ⟨first, List.mem_append_left _ hfirst, hpath⟩
      · obtain ⟨first, hfirst, hpath⟩ := ihRight hkey
        exact ⟨first, List.mem_append_right _ hfirst, hpath⟩

/-- What a call is for refers to keys that the caller uses. -/
theorem Calls.exists_uses (h : registry.Calls shape other) (hkey : key ∈ other.mentions) :
    ∃ first ∈ shape.mentions, ReflTransGen registry.Uses first key := by
  cases h with
  | item => exact ⟨key, hkey, .refl⟩
  | value => exact ⟨key, hkey, .refl⟩
  | field policy hfield =>
      rw [Shape.mentions_present] at hkey
      exact ⟨key, Shape.mem_mentionsFields_iff.mpr ⟨_, hfield, hkey⟩, .refl⟩
  | inner => exact ⟨key, hkey, .refl⟩
  | variant hvariant =>
      exact ⟨key, Shape.mem_mentionsVariants_iff.mpr ⟨_, hvariant, hkey⟩, .refl⟩
  | merged hflatten hfield =>
      rw [Shape.mentions_present] at hkey
      exact (flattens_of_flatten hflatten).exists_uses
        (Shape.mem_mentionsFields_iff.mpr ⟨_, hfield, hkey⟩)
  | left => exact ⟨key, List.mem_append_left _ hkey, .refl⟩
  | right => exact ⟨key, List.mem_append_right _ hkey, .refl⟩

/-- A key that the error reports is used by one of the roots, and not registered. -/
def Blames (registry : Registry) (roots : List String) (error : CompileError) : Prop :=
  ∀ key, error = .unknownReference ⟨key⟩ →
    registry.shape? key = none ∧ ∃ root ∈ roots, ReflTransGen registry.Uses root key

/-- Only keys that are used are compiled. -/
theorem prepared_uses (registry : Registry) (roots : List String) (depth : Nat) :
    Build.Prepared registry (Blames registry roots) depth fun _ shape =>
      ∀ key ∈ shape.mentions, ∃ root ∈ roots, ReflTransGen registry.Uses root key where
  unfinished := fun _ => nofun
  call := by
    intro _ _ _ h hcall key hkey
    obtain ⟨first, hfirst, hpath⟩ := hcall.exists_uses hkey
    obtain ⟨root, hroot, hpath'⟩ := h first hfirst
    exact ⟨root, hroot, hpath'.trans hpath⟩
  unknown := by
    rintro _ key h hnone other heq
    cases heq
    exact ⟨hnone, h key (List.mem_singleton.mpr rfl)⟩
  entity := by
    intro _ key _ h hshape next hnext
    obtain ⟨root, hroot, hpath⟩ := h key (List.mem_singleton.mpr rfl)
    exact ⟨root, hroot, hpath.tail (uses_of_mentions hshape hnext)⟩

theorem ends_complete_uses {roots : List String} (hkey : key ∈ roots) :
    Build.Ends registry (Blames registry roots) registry.size
      (Build.complete registry (.ref key)) := by
  refine (prepared_uses registry roots _).ends_shape fun other hother => ?_
  rw [List.mem_singleton.mp hother]
  exact ⟨key, hkey, .refl⟩

end Blame

section Closure

/-- Compiling the source comes to the key, or takes fields from its entity and compiles these. -/
def Touches (registry : Registry) (source : Shape) (key : String) : Prop :=
  ReflTransGen registry.Leads source (.ref key) ∨
    ∃ object, registry.Flattens (.ref key) object ∧
      ∀ other ∈ Shape.mentionsFields object.fields,
        ∃ shape, ReflTransGen registry.Leads source shape ∧ other ∈ shape.mentions

/-- A key that the shape refers to is one that its object refers to, or one whose entity was merged
into the object. -/
theorem Flattens.mem_or_exists (h : registry.Flattens shape object) (hkey : key ∈ shape.mentions) :
    key ∈ Shape.mentionsFields object.fields ∨ ∃ inner, registry.Flattens (.ref key) inner ∧
      Shape.mentionsFields inner.fields ⊆ Shape.mentionsFields object.fields := by
  induction h with
  | object fields policy => exact Or.inl hkey
  | ref hshape hinner _ =>
      rw [List.mem_singleton.mp hkey]
      exact Or.inr ⟨_, .ref hshape hinner, List.Subset.refl _⟩
  | @intersection left right leftObject rightObject _ _ ihLeft ihRight =>
      have hleft : Shape.mentionsFields leftObject.fields ⊆
          Shape.mentionsFields (leftObject.merge rightObject).fields :=
        fun _ h => Shape.mem_mentionsFields_mergeFields_iff.mpr (.inl h)
      have hright : Shape.mentionsFields rightObject.fields ⊆
          Shape.mentionsFields (leftObject.merge rightObject).fields :=
        fun _ h => Shape.mem_mentionsFields_mergeFields_iff.mpr (.inr h)
      rcases List.mem_append.mp hkey with hkey | hkey
      · exact (ihLeft hkey).imp (fun h => hleft h)
          fun ⟨inner, hinner, hsubset⟩ => ⟨inner, hinner, List.Subset.trans hsubset hleft⟩
      · exact (ihRight hkey).imp (fun h => hright h)
          fun ⟨inner, hinner, hsubset⟩ => ⟨inner, hinner, List.Subset.trans hsubset hright⟩

/-- Every key that a compiled shape refers to is touched. The induction is on the calls from the
shape, as the fields of a merged object are no parts of it. -/
theorem touches_of_mentions {n : Nat} (hbounded : Chain.Bounded registry.Calls n shape)
    (hshape : ReflTransGen registry.Leads source shape) (hkey : key ∈ shape.mentions) :
    registry.Touches source key := by
  induction n generalizing shape with
  | zero => exact hbounded.elim
  | succ n ih =>
      have hcall : ∀ other, registry.Calls shape other → key ∈ other.mentions →
          registry.Touches source key :=
        fun other hother => ih (hbounded other hother) (hshape.tail (.call hother))
      cases shape with
      | array item => exact hcall item (.item item) hkey
      | record value => exact hcall value (.value value) hkey
      | object fields policy =>
          obtain ⟨field, hfield, hkey⟩ := Shape.mem_mentionsFields_iff.mp hkey
          exact hcall _ (.field policy hfield) (by rwa [Shape.mentions_present])
      | optional inner default? => exact hcall inner (.inner inner default?) hkey
      | union variants =>
          obtain ⟨variant, hvariant, hkey⟩ := Shape.mem_mentionsVariants_iff.mp hkey
          exact hcall variant (.variant hvariant) hkey
      | intersection left right =>
          cases hflatten : registry.flatten (.intersection left right) with
          | none =>
              rcases List.mem_append.mp hkey with hkey | hkey
              · exact hcall left (.left hflatten) hkey
              · exact hcall right (.right hflatten) hkey
          | some object =>
              rcases (flattens_of_flatten hflatten).mem_or_exists hkey with
                hfields | ⟨inner, hinner, hsubset⟩
              · obtain ⟨field, hfield, hkey⟩ := Shape.mem_mentionsFields_iff.mp hfields
                exact hcall _ (.merged hflatten hfield) (by rwa [Shape.mentions_present])
              -- No call leads to an entity that was merged, but its fields are compiled.
              · refine Or.inr ⟨inner, hinner, fun other hother => ?_⟩
                obtain ⟨field, hfield, hother⟩ := Shape.mem_mentionsFields_iff.mp (hsubset hother)
                exact ⟨_, hshape.tail (.call (.merged hflatten hfield)),
                  by rwa [Shape.mentions_present]⟩
      | ref name =>
          rw [List.mem_singleton.mp hkey]
          exact Or.inl hshape
      | _ => exact nomatch hkey

section Finished

variable {depth : Nat} {id : NodeId} {after : Builder}
  (hrun : Build.shape registry depth source .empty = .ok (id, after))

include hrun

/-- A key that is touched is registered, and so is every key that its entity refers to. -/
theorem Touches.exists_shape (h : registry.Touches source key) :
    ∃ shape, registry.shape? key = some shape ∧
      ∀ other ∈ shape.mentions, registry.Touches source other := by
  have htouches : ∀ {shape : Shape} {other : String}, ReflTransGen registry.Leads source shape →
      other ∈ shape.mentions → registry.Touches source other :=
    fun hshape => touches_of_mentions (covered_of_leads hrun hshape).bounded hshape
  rcases h with hleads | ⟨object, hobject, hfields⟩
  · obtain ⟨labels, hgrown, -⟩ :=
      Build.labels_shape registry depth (Build.labelled_empty registry) hrun
    have hname := Build.keys_subset_names hgrown ((covered_of_leads hrun hleads).entities key .refl)
    obtain ⟨shape, hshape⟩ := exists_shape?_of_mem_names hname
    exact ⟨shape, hshape, fun other => htouches (hleads.tail (.entity hshape))⟩
  · cases hobject with
    | @ref _ shape _ hshape hinner =>
        refine ⟨shape, hshape, fun other hother => ?_⟩
        rcases hinner.mem_or_exists hother with hmem | ⟨inner, hflattens, hsubset⟩
        · obtain ⟨compiled, hleads, hmem⟩ := hfields other hmem
          exact htouches hleads hmem
        · exact Or.inr ⟨inner, hflattens, fun _ hmem => hfields _ (hsubset hmem)⟩

theorem Touches.uses {other : String} (h : registry.Touches source key)
    (hpath : ReflTransGen registry.Uses key other) : registry.Touches source other := by
  induction hpath with
  | refl => exact h
  | tail _ huses ih =>
      obtain ⟨shape, hshape, hmentions⟩ := ih.exists_shape hrun
      obtain ⟨other, hother, hmem⟩ := huses
      rw [hshape, Option.some.injEq] at hother
      exact hmentions _ (Shape.mem_references_iff.mp (hother ▸ hmem))

end Finished

end Closure

theorem error_of_finish {α : Type} {build : Build α} {error : CompileError}
    (h : build.finish = .error error) : build .empty = .error error := by
  have hfinish : build.finish =
      (build .empty).map fun last => (last.1, (⟨last.2.nodes⟩ : Arena)) := rfl
  rw [hfinish] at h
  cases hrun : build .empty with
  | ok last => exact nomatch hrun ▸ h
  | error other =>
      rw [hrun] at h
      cases h
      rfl

/-- A validator that is made of what compilation ends with fails as compilation does. -/
theorem error_of_bind {α β : Type} {build : Build α} {make : α × Arena → β} {error : CompileError}
    (h : (build.finish >>= fun result => pure (make result)) = .error error) :
    build .empty = .error error := by
  cases hfinish : build.finish with
  | ok result => exact nomatch hfinish ▸ h
  | error other =>
      rw [hfinish] at h
      cases h
      exact error_of_finish hfinish

/-- What a compilation that succeeds uses is registered. -/
theorem contains_of_compile {validator : Validator} (h : registry.compile key = .ok validator)
    {other : String} (hpath : ReflTransGen registry.Uses key other) :
    registry.contains other = true := by
  obtain ⟨depth, hfinish⟩ := compilesTo_of_compile h
  obtain ⟨after, hrun, -⟩ := Build.finish_eq_ok_iff.mp hfinish
  have htouches : registry.Touches (.ref key) key := Or.inl .refl
  obtain ⟨shape, hshape, -⟩ := (htouches.uses hrun hpath).exists_shape hrun
  rw [contains_eq, hshape]
  rfl

/-- What a compilation reports is used and not registered. -/
theorem uses_of_compile_error {other : String}
    (h : registry.compile key = .error (.unknownReference ⟨other⟩)) :
    registry.contains other = false ∧ ReflTransGen registry.Uses key other := by
  have hrun := error_of_bind h
  have hends : Build.Ends registry (Blames registry [key]) _ (Build.complete registry (.ref key)) :=
    ends_complete_uses (List.mem_singleton.mpr rfl)
  obtain ⟨hfails, -⟩ := hends .empty (Build.length_missing_le registry .empty)
  obtain ⟨hnone, root, hroot, hpath⟩ := hfails _ hrun other rfl
  rw [List.mem_singleton.mp hroot] at hpath
  exact ⟨by rw [contains_eq, hnone]; rfl, hpath⟩

theorem contains_of_compileAll (hnodup : registry.names.Nodup) {set : ValidatorSet}
    (h : registry.compileAll = .ok set) {entity : Entity} (hentity : entity ∈ registry.entities)
    {other : String} (hother : other ∈ entity.shape.references) :
    registry.contains other = true := by
  have hname : entity.name ∈ registry.names := List.mem_map_of_mem hentity
  obtain ⟨⟨root, arena⟩, hfinish⟩ := exists_complete_of_compileAll h hname
  have hcompile : registry.compile entity.name = .ok ⟨arena, root, some entity.name⟩ := by
    rw [compile, hfinish]
    rfl
  have hget : registry.get? entity.name = some entity :=
    (get?_eq_some_iff hnodup).mpr ⟨hentity, rfl⟩
  exact contains_of_compile hcompile (.single ⟨entity.shape, by rw [shape?, hget]; rfl, hother⟩)

theorem exists_uses_of_compileAll_error {other : String}
    (h : registry.compileAll = .error (.unknownReference ⟨other⟩)) :
    registry.contains other = false ∧
      ∃ entity ∈ registry.entities, other ∈ entity.shape.references := by
  have hrun := error_of_bind h
  have hends : Build.Ends registry (Blames registry registry.names) _
      (Build.roots registry registry.names) :=
    Build.ends_roots fun key hkey => ends_complete_uses hkey
  obtain ⟨hfails, -⟩ := hends .empty (Build.length_missing_le registry .empty)
  obtain ⟨hnone, root, hroot, hpath⟩ := hfails _ hrun other rfl
  refine ⟨by rw [contains_eq, hnone]; rfl, ?_⟩
  -- The root is registered and the reported key is not, so the way has a last step.
  rcases ReflTransGen.cases_tail hpath with rfl | ⟨last, -, shape, hshape, hmem⟩
  · obtain ⟨shape, hshape⟩ := exists_shape?_of_mem_names hroot
    rw [hnone] at hshape
    exact nomatch hshape
  · obtain ⟨entity, hget, rfl⟩ := Option.map_eq_some_iff.mp hshape
    exact ⟨entity, List.mem_of_find?_eq_some hget, hmem⟩

/-- Compiling an entity, or all, succeeds only if all keys that are used are registered, and reports
only a key that is used and not registered. -/
theorem compile_dangling {entries : List (String × Json)}
    (hentries : ofEntries entries = .ok registry) (key : String) :
    (∀ validator, registry.compile key = .ok validator →
      ∀ other, ReflTransGen registry.Uses key other → registry.contains other = true) ∧
    (∀ other, registry.compile key = .error (.unknownReference ⟨other⟩) →
      registry.contains other = false ∧ ReflTransGen registry.Uses key other) ∧
    (∀ set, registry.compileAll = .ok set → ∀ entity ∈ registry.entities,
      ∀ other ∈ entity.shape.references, registry.contains other = true) ∧
    ∀ other, registry.compileAll = .error (.unknownReference ⟨other⟩) →
      registry.contains other = false ∧
        ∃ entity ∈ registry.entities, other ∈ entity.shape.references := by
  have hnodup := (ofEntries_eq_ok_iff.mp hentries).2.1
  exact ⟨fun _ h _ => contains_of_compile h, fun _ => uses_of_compile_error,
    fun _ h _ hentity _ => contains_of_compileAll hnodup h hentity,
    fun _ => exists_uses_of_compileAll_error⟩

/-- A listing is a page with a count. What a page links to is not described. -/
def listingDefinition : Json :=
  .obj [("allOf", .arr [.obj [("$ref", .str "#/components/schemas/Page")],
    .obj [("type", .str "object"),
      ("properties", .obj [("count", .obj [("type", .str "integer")])])]])]

def pageDefinition : Json :=
  .obj [("type", .str "object"),
    ("properties", .obj [("next", .obj [("$ref", .str "#/components/schemas/Link")])])]

def listingRegistry : Registry :=
  ⟨[⟨"Listing", listingDefinition, .intersection (.ref "Page")
      (.object [("count", .optional .integer none)] .passthrough)⟩,
    ⟨"Page", pageDefinition, .object [("next", .optional (.ref "Link") none)] .passthrough⟩]⟩

theorem ofEntries_listingDefinition :
    ofEntries [("Listing", listingDefinition), ("Page", pageDefinition)] = .ok listingRegistry := by
  have hlisting : Reads ("Listing", listingDefinition) (listingRegistry.entities[0]) :=
    ⟨rfl, rfl, by rfl, by with_unfolding_all rfl⟩
  have hpage : Reads ("Page", pageDefinition) (listingRegistry.entities[1]) :=
    ⟨rfl, rfl, by rfl, by with_unfolding_all rfl⟩
  exact ofEntries_of_reads (.cons hlisting (.cons hpage .nil)) (by decide) (by rfl)

/-- The page of a listing is merged and never compiled, but its link is missed. -/
theorem compile_dangling_listing :
    (listingRegistry.contains "Link" = false ∧
      ReflTransGen listingRegistry.Uses "Listing" "Link") ∧
    ∃ entity ∈ listingRegistry.entities, "Link" ∈ entity.shape.references := by
  have hcompile : listingRegistry.compile "Listing" = .error (.unknownReference ⟨"Link"⟩) := by rfl
  have hall : listingRegistry.compileAll = .error (.unknownReference ⟨"Link"⟩) := by rfl
  obtain ⟨-, hfails, -, hallFails⟩ := compile_dangling ofEntries_listingDefinition "Listing"
  exact ⟨hfails _ hcompile, (hallFails _ hall).2⟩

end Registry

end EntityContract
