import EntityContract.Document.Basic
import EntityContract.Proofs.Json.Value
import EntityContract.Proofs.Model.Parsing
import EntityContract.Proofs.Registry.Permutation

/-!
Which definitions of a JSON text become entities. A text may repeat any key. Where `components` and
`schemas` are written once, the entities are the definitions as they are written; otherwise those of
the last container, and the others are lost.
-/

namespace EntityContract

theorem mapError_eq_ok_iff {ε ε' α : Type} {f : ε → ε'} {result : Except ε α} {a : α} :
    result.mapError f = .ok a ↔ result = .ok a := by
  cases result <;> simp [Except.mapError]

theorem Members.lookup_insert (key : String) (value : Json) (members : Members) (other : String) :
    (members.insert key value).lookup other =
      if other = key then some value else members.lookup other := by
  induction members with
  | nil =>
      rw [Members.insert, List.lookup_cons]
      by_cases hother : other = key
      · rw [if_pos hother, hother, beq_self_eq_true]
      · rw [if_neg hother, beq_false_of_ne hother]
  | cons member members ih =>
      obtain ⟨name, old⟩ := member
      rw [Members.insert, List.lookup_cons]
      by_cases hname : name = key
      · subst hname
        rw [if_pos rfl, List.lookup_cons]
        by_cases hother : other = name
        · rw [if_pos hother, hother, beq_self_eq_true]
        · rw [if_neg hother, beq_false_of_ne hother]
      · rw [if_neg hname, List.lookup_cons, ih]
        by_cases hother : other = name
        · simp [hother, hname]
        · rw [beq_false_of_ne hother]

namespace Json

/-- The values that are written under a key of an object, in their order. -/
def writtenUnder (key : String) : Json → List Json
  | .obj members => (members.filter (·.1 == key)).map (·.2)
  | _ => []

/-- The containers of definitions in a written document: what is under `schemas` inside
`components`, wherever these keys are repeated. -/
def containers (tree : Json) : List Json :=
  (tree.writtenUnder "components").flatMap (writtenUnder "schemas")

/-- The definitions in all containers, as they are written. -/
def writtenDefinitions (tree : Json) : Members :=
  tree.containers.flatMap fun container => distinctMembers (container.members?.getD [])

theorem exists_obj_of_mem_writtenUnder {tree value : Json} {key : String}
    (h : value ∈ tree.writtenUnder key) : ∃ members, tree = .obj members := by
  cases tree with
  | obj members => exact ⟨members, rfl⟩
  | _ => exact nomatch h

theorem containers_of_single {tree components : Json}
    (h : tree.writtenUnder "components" = [components]) :
    tree.containers = components.writtenUnder "schemas" := by
  rw [containers, h, List.flatMap_singleton]

/-- The last container is the last one in the last components, if these have one. -/
theorem getLast?_containers {tree components container : Json}
    (hcomponents : (tree.writtenUnder "components").getLast? = some components)
    (hcontainer : (components.writtenUnder "schemas").getLast? = some container) :
    tree.containers.getLast? = some container := by
  obtain ⟨before, hbefore⟩ := List.getLast?_eq_some_iff.mp hcomponents
  rw [containers, hbefore, List.flatMap_append, List.flatMap_singleton, List.getLast?_append,
    hcontainer, Option.some_or]

/-- In the value of a written object a key has the last value that is written under it. -/
theorem get?_distinct (tree : Json) (key : String) :
    tree.distinct.get? key = (tree.writtenUnder key).getLast?.map distinct := by
  have hfold : ∀ members kept : Members,
      ((distinctMembers members).foldl (fun kept member => Members.insert member.1 member.2 kept)
        kept).lookup key =
        (((obj members).writtenUnder key).getLast?.map distinct).or (kept.lookup key) := by
    intro members
    induction members with
    | nil =>
        intro kept
        rfl
    | cons member members ih =>
        intro kept
        obtain ⟨name, value⟩ := member
        rw [distinctMembers, List.foldl_cons, ih, Members.lookup_insert, writtenUnder, writtenUnder,
          List.filter_cons]
        by_cases hname : key = name
        · subst hname
          rw [if_pos rfl, if_pos (beq_self_eq_true key), List.map_cons, List.getLast?_cons]
          cases ((members.filter (·.1 == key)).map (·.2)).getLast? <;> rfl
        · rw [if_neg hname, if_neg (by simpa using Ne.symm hname)]
  cases tree with
  | obj members =>
      rw [distinct, get?, Members.ofWritten, hfold, List.lookup_nil, Option.or_none]
  | _ => rfl

theorem distinct_eq_obj_iff {tree : Json} {entries : Members} :
    tree.distinct = .obj entries ↔
      ∃ members, tree = .obj members ∧ entries = Members.ofWritten (distinctMembers members) := by
  cases tree with
  | obj members => simp [distinct, eq_comm]
  | _ => simp [distinct]

end Json

theorem eq_singleton_of_getLast? {α : Type} {xs : List α} {x : α} (h : xs.getLast? = some x)
    (hlength : xs.length ≤ 1) : xs = [x] := by
  obtain ⟨before, rfl⟩ := List.getLast?_eq_some_iff.mp h
  rw [List.length_append, List.length_singleton] at hlength
  rw [List.eq_nil_of_length_eq_zero (Nat.le_zero.mp (Nat.le_of_succ_le_succ hlength)),
    List.nil_append]

namespace Outline

theorem part?_obj {name : String} {members : Members} {value : Json} :
    part? name (.obj members) = some (some value) ↔
      (Json.obj members).writtenUnder name = [value] := by
  rw [part?, single?, Json.writtenUnder]
  cases members.filter (·.1 == name) with
  | nil => simp
  | cons first rest =>
      cases rest with
      | nil =>
          obtain ⟨key, only⟩ := first
          simp
      | cons second rest => simp

/-- An outline with definitions has them from the only container, if that is in objects. -/
theorem ofJson?_eq_some_iff {tree components : Json} {definitions : Members}
    (hcomponents : (tree.writtenUnder "components").getLast? = some components)
    (hschemas : components.writtenUnder "schemas" ≠ []) :
    ofJson? tree = some (some definitions) ↔ tree.writtenUnder "components" = [components] ∧
      ∃ members, components.writtenUnder "schemas" = [.obj members] ∧
        definitions = Json.distinctMembers members := by
  obtain ⟨members, rfl⟩ := Json.exists_obj_of_mem_writtenUnder (List.mem_of_getLast? hcomponents)
  obtain ⟨schemas, hmem⟩ := List.exists_mem_of_ne_nil _ hschemas
  obtain ⟨inner, rfl⟩ := Json.exists_obj_of_mem_writtenUnder hmem
  constructor
  · intro h
    rw [ofJson?] at h
    obtain ⟨found, hfound, h⟩ := Option.bind_eq_some_iff.mp h
    cases found with
    | none => cases h
    | some other =>
        have honly := part?_obj.mp hfound
        rw [honly, List.getLast?_singleton, Option.some.injEq] at hcomponents
        subst hcomponents
        obtain ⟨container?, hcontainer, h⟩ := Option.bind_eq_some_iff.mp h
        cases container? with
        | none => cases h
        | some container =>
            cases container with
            | obj written =>
                refine ⟨honly, written, part?_obj.mp hcontainer, ?_⟩
                rw [Json.distinctMembers_eq_map]
                exact (Option.some.inj (Option.some.inj h)).symm
            | _ => cases h
  · rintro ⟨honly, written, hwritten, rfl⟩
    rw [ofJson?, part?_obj.mpr honly]
    simp only [Option.bind_eq_bind, Option.bind_some, part?_obj.mpr hwritten,
      Json.distinctMembers_eq_map]
    rfl

end Outline

namespace Registry

/-- The names and definitions of the entities, in their order. -/
def definitions (registry : Registry) : Members :=
  registry.entities.map fun entity => (entity.name, entity.definition)

theorem definitions_of_ofEntries {registry : Registry} {entries : Members}
    (h : ofEntries entries = .ok registry) :
    registry.definitions = entries ∧ (entries.map (·.1)).Nodup := by
  obtain ⟨hreads, hnodup, -⟩ := ofEntries_eq_ok_iff.mp h
  have hdefinitions : registry.definitions = entries := by
    rw [definitions, ← List.forall₂_eq_eq_eq, List.forall₂_map_left_iff]
    exact hreads.flip.imp fun entity entry hread => by
      rw [hread.name_eq, hread.definition_eq]
  refine ⟨hdefinitions, ?_⟩
  rw [← hdefinitions, definitions, List.map_map]
  exact hnodup

end Registry

namespace SchemaDocument

theorem ofText_json_ok {text : String} {document : SchemaDocument}
    (h : ofText .json text = .ok document) :
    ∃ tree, Json.written? Json.documentDepth text = some tree ∧
      document = ⟨tree.distinct, (Outline.ofJson? tree).join, .inline⟩ := by
  rw [ofText] at h
  dsimp only at h
  split at h
  · cases h
  obtain ⟨value, hvalue, hdocument⟩ := bind_eq_ok_iff.mp h
  cases hdocument
  rw [readValue] at hvalue
  split at hvalue
  · cases hvalue
    rename_i hread
    obtain ⟨tree, htree, rfl⟩ := Option.map_eq_some_iff.mp hread
    obtain ⟨tokens, htokens, hparsed⟩ := Option.bind_eq_some_iff.mp htree
    refine ⟨tree, htree, ?_⟩
    rw [outline?, Outline.ofJsonText?, htokens]
    dsimp only [Option.bind_eq_bind, Option.bind_some]
    rw [hparsed]
  · cases hvalue

/-- A document is indexed from its outline, or else from its value. -/
theorem registry_ok {document : SchemaDocument} {registry : Registry}
    (h : document.registry = .ok registry) :
    ∃ entries, (document.value.get? "components").bind (·.get? "schemas") = some (.obj entries) ∧
      Registry.ofEntries (document.definitions.getD entries) = .ok registry := by
  have hvalue : Registry.ofDocument document.value = .ok registry →
      ∃ entries, (document.value.get? "components").bind (·.get? "schemas") = some (.obj entries) ∧
        Registry.ofEntries entries = .ok registry := by
    intro h
    rw [Registry.ofDocument] at h
    split at h
    · cases h
    split at h
    · rename_i entries hentries
      exact ⟨entries, hentries, h⟩
    · cases h
  rw [SchemaDocument.registry] at h
  split at h
  · cases h
  replace h := mapError_eq_ok_iff.mp h
  cases hdefinitions : document.definitions with
  | none =>
      rw [hdefinitions] at h
      exact hvalue h
  | some definitions =>
      rw [hdefinitions] at h
      cases hcontainer : document.container? with
      | none =>
          -- Without a container there is nothing to index.
          rw [hcontainer] at h
          obtain ⟨entries, hentries, -⟩ := hvalue h
          rw [container?, hentries] at hcontainer
          cases hcontainer
      | some container =>
          rw [hcontainer] at h
          obtain ⟨hfound, hobject⟩ := Option.filter_eq_some_iff.mp hcontainer
          cases container with
          | obj entries => exact ⟨entries, hfound, h⟩
          | _ => cases hobject

/-- The entities of a JSON document are the definitions of its last container, a repeated name once.
If no container stands beside another, they are all definitions as they are written. -/
theorem definitions_of_json {text : String} {document : SchemaDocument} {registry : Registry}
    (htext : ofText .json text = .ok document) (hregistry : document.registry = .ok registry) :
    ∃ tree, Json.written? Json.documentDepth text = some tree ∧
      (registry.definitions.map (·.1)).Nodup ∧
      (∃ members, tree.containers.getLast? = some (.obj members) ∧
        registry.definitions = Members.ofWritten (Json.distinctMembers members)) ∧
      ((tree.writtenUnder "components").length ≤ 1 → tree.containers.length ≤ 1 →
        registry.definitions = tree.writtenDefinitions) := by
  obtain ⟨tree, htree, rfl⟩ := ofText_json_ok htext
  obtain ⟨entries, hentries, hindexed⟩ := registry_ok hregistry
  obtain ⟨hdefinitions, hnodup⟩ := Registry.definitions_of_ofEntries hindexed
  obtain ⟨value, hvalue, hschemas⟩ := Option.bind_eq_some_iff.mp hentries
  rw [Json.get?_distinct] at hvalue
  obtain ⟨components, hcomponents, rfl⟩ := Option.map_eq_some_iff.mp hvalue
  rw [Json.get?_distinct] at hschemas
  obtain ⟨container, hcontainer, hobject⟩ := Option.map_eq_some_iff.mp hschemas
  obtain ⟨members, rfl, rfl⟩ := Json.distinct_eq_obj_iff.mp hobject
  have hne : components.writtenUnder "schemas" ≠ [] := by
    intro hnil
    rw [hnil] at hcontainer
    exact nomatch hcontainer
  have hlast := Json.getLast?_containers hcomponents hcontainer
  have hsingle : ∀ {definitions}, Outline.ofJson? tree = some (some definitions) ↔ _ :=
    Outline.ofJson?_eq_some_iff hcomponents hne
  refine ⟨tree, htree, hdefinitions ▸ hnodup, ?_⟩
  cases houtline : (Outline.ofJson? tree).join with
  | some definitions =>
      obtain ⟨honly, written, hwritten, rfl⟩ := hsingle.mp (Option.join_eq_some_iff.mp houtline)
      rw [houtline, Option.getD_some] at hdefinitions hnodup
      have hcontainers := (Json.containers_of_single honly).trans hwritten
      rw [hcontainers, List.getLast?_singleton] at hlast
      cases hlast
      refine ⟨⟨members, by rw [hcontainers, List.getLast?_singleton], ?_⟩, fun _ _ => ?_⟩
      · rw [hdefinitions, Members.ofWritten_of_nodup hnodup]
      · rw [hdefinitions, Json.writtenDefinitions, hcontainers, List.flatMap_singleton]
        rfl
  | none =>
      rw [houtline, Option.getD_none] at hdefinitions
      refine ⟨⟨members, hlast, hdefinitions⟩, fun honce hcontainers => ?_⟩
      -- The only container would have been found in the outline.
      have honly := eq_singleton_of_getLast? hcomponents honce
      rw [Json.containers_of_single honly] at hcontainers
      have hwritten := eq_singleton_of_getLast? hcontainer hcontainers
      rw [hsingle.mpr ⟨honly, members, hwritten, rfl⟩] at houtline
      exact nomatch houtline

/-- A document that writes its definitions in one place, though it repeats other keys. -/
def plainText : String :=
  "\x7b\"info\": \x7b\"title\": \"A\", \"title\": \"B\"\x7d, \"components\": \x7b\"schemas\": " ++
    "\x7b\"Server\": \x7b\"type\": \"object\"\x7d, " ++
    "\"Remote\": \x7b\"type\": \"string\"\x7d\x7d\x7d\x7d"

theorem definitions_of_json_plain :
    ∃ document registry tree, ofText .json plainText = .ok document ∧
      document.registry = .ok registry ∧
        Json.written? Json.documentDepth plainText = some tree ∧
          registry.definitions = tree.writtenDefinitions := by
  have hloads : (ofText .json plainText).toOption.any (·.registry.toOption.isSome) = true := by
    decide +kernel
  have honce : (Json.written? Json.documentDepth plainText).all (fun tree =>
      (tree.writtenUnder "components").length ≤ 1 && tree.containers.length ≤ 1) = true := by
    decide +kernel
  obtain ⟨document, htext, hloads⟩ := exists_ok_of_any hloads
  obtain ⟨registry, hregistry⟩ := exists_ok_of_isSome hloads
  obtain ⟨tree, htree, -, -, hdefinitions⟩ := definitions_of_json htext hregistry
  rw [htree, Option.all_some, Bool.and_eq_true, decide_eq_true_eq, decide_eq_true_eq] at honce
  exact ⟨document, registry, tree, htext, hregistry, htree, hdefinitions honce.1 honce.2⟩

/-- A document with two containers, the second of which defines a server again. -/
def shadowingText : String :=
  "\x7b\"components\": \x7b\"schemas\": " ++
    "\x7b\"Server\": \x7b\"type\": \"object\"\x7d, \"Remote\": \x7b\x7d\x7d\x7d, " ++
    "\"components\": \x7b\"schemas\": \x7b\"Server\": \x7b\"type\": \"string\"\x7d\x7d\x7d\x7d"

/-- The second container is loaded, without a word about the first one. -/
theorem definitions_of_json_shadowed :
    ∃ document registry tree, ofText .json shadowingText = .ok document ∧
      document.registry = .ok registry ∧
        Json.written? Json.documentDepth shadowingText = some tree ∧
          registry.names = ["Server"] ∧
            tree.writtenDefinitions.map (·.1) = ["Server", "Remote", "Server"] := by
  have hloads : (ofText .json shadowingText).toOption.any (fun document =>
      document.registry.toOption.any (·.names = ["Server"])) = true := by decide +kernel
  have hwritten : (Json.written? Json.documentDepth shadowingText).any (fun tree =>
      tree.writtenDefinitions.map (·.1) = ["Server", "Remote", "Server"]) = true := by
    decide +kernel
  obtain ⟨document, htext, hloads⟩ := exists_ok_of_any hloads
  obtain ⟨registry, hregistry, hnames⟩ := exists_ok_of_any hloads
  obtain ⟨tree, htree, hdefinitions⟩ := (Option.any_eq_true _ _).mp hwritten
  exact ⟨document, registry, tree, htext, hregistry, htree, of_decide_eq_true hnames,
    of_decide_eq_true hdefinitions⟩

end SchemaDocument

end EntityContract
