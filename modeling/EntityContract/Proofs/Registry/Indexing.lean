import EntityContract.Proofs.Arena.Delegation
import EntityContract.Proofs.Registry.Permutation
import EntityContract.Proofs.Shape.Mentions

/-!
Which lists of definitions are indexed, and what is told of the others. Names and definitions are
looked at one after the other, and the first that is wrong is reported; only when none is, unguarded
recursion is looked for. Main statement: `ofEntries_exact`.
-/

namespace EntityContract

open Relation

/-- A value of the shape is checked against the entity of the key as a whole: no field, element or
record value lies in between. -/
inductive Shape.Exposes : Shape → String → Prop
  | ref (key : String) : Exposes (.ref key) key
  | optional {inner : Shape} {default? : Option Json} {key : String} :
      Exposes inner key → Exposes (.optional inner default?) key
  | variant {variants : List Shape} {variant : Shape} {key : String} :
      variant ∈ variants → Exposes variant key → Exposes (.union variants) key
  | left {left right : Shape} {key : String} :
      Exposes left key → Exposes (.intersection left right) key
  | right {left right : Shape} {key : String} :
      Exposes right key → Exposes (.intersection left right) key

namespace Shape

variable {shape : Shape} {key : String}

theorem Exposes.mem_unguarded (h : shape.Exposes key) : key ∈ shape.unguarded := by
  induction h with
  | ref key => exact List.mem_singleton.mpr rfl
  | optional _ ih => exact ih
  | variant hvariant _ ih => exact mem_unguardedVariants.mpr ⟨_, hvariant, ih⟩
  | left _ ih => exact List.mem_append_left _ ih
  | right _ ih => exact List.mem_append_right _ ih

theorem exposes_of_mem_unguarded (h : key ∈ shape.unguarded) : shape.Exposes key := by
  induction shape with
  | ref other => exact List.mem_singleton.mp h ▸ .ref other
  | optional inner default? ih => exact .optional (ih h)
  | union variants ih =>
      obtain ⟨variant, hvariant, hkey⟩ := mem_unguardedVariants.mp h
      exact .variant hvariant (ih variant hvariant hkey)
  | intersection left right ihLeft ihRight =>
      rcases List.mem_append.mp h with h | h
      · exact .left (ihLeft h)
      · exact .right (ihRight h)
  | _ => exact nomatch h

theorem exposes_iff : shape.Exposes key ↔ key ∈ shape.unguarded :=
  ⟨Exposes.mem_unguarded, exposes_of_mem_unguarded⟩

/-- A key that is exposed is one that the shape refers to. -/
theorem Exposes.mem_references (h : shape.Exposes key) : key ∈ shape.references := by
  rw [mem_references_iff]
  induction h with
  | ref key => exact List.mem_singleton.mpr rfl
  | optional _ ih => exact ih
  | variant hvariant _ ih => exact mem_mentionsVariants_iff.mpr ⟨_, hvariant, ih⟩
  | left _ ih => exact List.mem_append_left _ ih
  | right _ ih => exact List.mem_append_right _ ih

end Shape

namespace Registry

variable {registry : Registry} {entries : List (String × Json)} {name other : String}
  {position : Nat} {error : LoadError}

/-- The definition of the one name refers to the other name of the list unguarded. References to
names that are not in the list do not count. -/
def Exposes (entries : List (String × Json)) (name other : String) : Prop :=
  other ∈ entries.map (·.1) ∧ ∃ definition shape, (name, definition) ∈ entries ∧
    Shape.ofDefinition definition = .ok shape ∧ shape.Exposes other

/-- The name refers to itself through unguarded references. -/
def OnCycle (entries : List (String × Json)) (name : String) : Prop :=
  TransGen (Exposes entries) name name

/-- Each pair can be read: the names are there and differ, and the definitions describe shapes. -/
structure Readable (entries : List (String × Json)) : Prop where
  not_blank : ∀ entry ∈ entries, isBlankText entry.1 = false
  nodup : (entries.map (·.1)).Nodup
  lowers : ∀ entry ∈ entries, ∃ shape, Shape.ofDefinition entry.2 = .ok shape

/-- What is wrong with the pair at a position, given the names before it. -/
inductive Offends (entries : List (String × Json)) (position : Nat) : LoadError → Prop
  | blank {name : String} {definition : Json} : entries[position]? = some (name, definition) →
      isBlankText name = true → Offends entries position .emptyKey
  | duplicate {name : String} {definition : Json} : entries[position]? = some (name, definition) →
      isBlankText name = false → name ∈ (entries.take position).map (·.1) →
        Offends entries position (.duplicateKey name)
  | definition {name : String} {definition : Json} {cause : DefinitionError} :
      entries[position]? = some (name, definition) → isBlankText name = false →
        name ∉ (entries.take position).map (·.1) → Shape.ofDefinition definition = .error cause →
          Offends entries position (.invalidDefinition name cause)

/-- The error belongs to the first pair that offends. -/
def FirstOffends (entries : List (String × Json)) (error : LoadError) : Prop :=
  ∃ position, Offends entries position error ∧
    ∀ earlier < position, ∀ fault, ¬Offends entries earlier fault

/-- The name is the first one that is on a cycle. -/
def FirstOnCycle (entries : List (String × Json)) (name : String) : Prop :=
  ∃ (position : Nat) (definition : Json), entries[position]? = some (name, definition) ∧
    OnCycle entries name ∧
    ∀ earlier < position, ∀ entry : String × Json,
      entries[earlier]? = some entry → ¬OnCycle entries entry.1

/-- There is only one first position. -/
theorem eq_of_first {p : Nat → Prop} {position position' : Nat} (h : p position)
    (hfirst : ∀ earlier < position, ¬p earlier) (h' : p position')
    (hfirst' : ∀ earlier < position', ¬p earlier) : position = position' :=
  Nat.le_antisymm (Nat.le_of_not_lt fun hlt => hfirst _ hlt h')
    (Nat.le_of_not_lt fun hlt => hfirst' _ hlt h)

theorem Offends.unique {fault : LoadError} (h : Offends entries position error)
    (h' : Offends entries position fault) : error = fault := by
  cases h <;> cases h' <;> grind

theorem FirstOffends.unique {fault : LoadError} (h : FirstOffends entries error)
    (h' : FirstOffends entries fault) : error = fault := by
  obtain ⟨position, hoffends, hfirst⟩ := h
  obtain ⟨position', hoffends', hfirst'⟩ := h'
  have heq : position = position' :=
    eq_of_first (p := fun position => ∃ fault, Offends entries position fault)
      ⟨_, hoffends⟩ (fun earlier hlt => not_exists.mpr (hfirst earlier hlt))
      ⟨_, hoffends'⟩ fun earlier hlt => not_exists.mpr (hfirst' earlier hlt)
  subst heq
  exact hoffends.unique hoffends'

/-- A pair whose name is new and whose definition describes a shape does not offend. -/
theorem not_offends {definition : Json} {shape : Shape}
    (hentry : entries[position]? = some (name, definition)) (hblank : isBlankText name = false)
    (hnew : name ∉ (entries.take position).map (·.1))
    (hshape : Shape.ofDefinition definition = .ok shape) (fault : LoadError) :
    ¬Offends entries position fault := by
  intro h
  cases h <;> simp_all

theorem Readable.not_offends (h : Readable entries) (fault : LoadError) :
    ¬Offends entries position fault := by
  intro hoffends
  have hentry : ∃ entry, entries[position]? = some entry := by
    cases hoffends with
    | blank hentry => exact ⟨_, hentry⟩
    | duplicate hentry => exact ⟨_, hentry⟩
    | definition hentry => exact ⟨_, hentry⟩
  obtain ⟨⟨name, definition⟩, hentry⟩ := hentry
  have hmem := List.mem_of_getElem? hentry
  obtain ⟨shape, hshape⟩ := h.lowers _ hmem
  have hnew : name ∉ (entries.take position).map (·.1) := by
    intro hearlier
    obtain ⟨hposition, hget⟩ := List.getElem?_eq_some_iff.mp hentry
    have hsplit : entries =
        entries.take position ++ (name, definition) :: entries.drop (position + 1) := by
      rw [← hget, List.cons_getElem_drop_succ, List.take_append_drop]
    have hnodup := h.nodup
    rw [hsplit, List.map_append, List.map_cons, List.nodup_append] at hnodup
    exact hnodup.2.2 name hearlier name List.mem_cons_self rfl
  exact Registry.not_offends hentry (h.not_blank _ hmem) hnew hshape fault hoffends

/-- Reading stops at the first pair that offends among those that are still to be read. -/
theorem offends_of_readEntries {done : List (String × Json)} {entities : List Entity}
    (hnames : entities.map (·.name) = done.map (·.1))
    (h : readEntries entities entries = .error error) :
    ∃ position, Offends (done ++ entries) position error ∧
      ∀ earlier, done.length ≤ earlier → earlier < position →
        ∀ fault, ¬Offends (done ++ entries) earlier fault := by
  -- What was read before enters by its names only, so the induction can take one pair over.
  induction entries generalizing done entities with
  | nil => exact nomatch h
  | cons entry entries ih =>
      obtain ⟨name, definition⟩ := entry
      have hentry :
          (done ++ (name, definition) :: entries)[done.length]? = some (name, definition) := by
        simp
      have htake : (done ++ (name, definition) :: entries).take done.length = done :=
        List.take_left
      have hany : entities.any (·.name == name) = true ↔ name ∈ done.map (·.1) := by
        rw [← hnames, List.any_eq_true, List.mem_map]
        simp only [beq_iff_eq]
      have hnone : ∀ earlier, done.length ≤ earlier → earlier < done.length → ∀ fault,
          ¬Offends (done ++ (name, definition) :: entries) earlier fault :=
        fun earlier hle hlt => absurd hlt (Nat.not_lt.mpr hle)
      rw [readEntries] at h
      split at h
      · rename_i hblank
        cases h
        exact ⟨done.length, .blank hentry hblank, hnone⟩
      rename_i hblank
      rw [Bool.not_eq_true] at hblank
      split at h
      · rename_i htaken
        cases h
        exact ⟨done.length, .duplicate hentry hblank (htake.symm ▸ hany.mp htaken), hnone⟩
      rename_i hnew
      rw [hany, ← htake] at hnew
      split at h
      · rename_i shape hshape
        have hnames' : (entities ++ [(⟨name, definition, shape⟩ : Entity)]).map (·.name) =
            (done ++ [(name, definition)]).map (·.1) := by
          rw [List.map_append, List.map_append, hnames]
          rfl
        obtain ⟨position, hoffends, hfirst⟩ := ih hnames' h
        rw [List.append_assoc] at hoffends hfirst
        refine ⟨position, hoffends, fun earlier hle hlt => ?_⟩
        rcases Nat.eq_or_lt_of_le hle with rfl | hgt
        · exact not_offends hentry hblank hnew hshape
        · exact hfirst earlier (by simpa using Nat.succ_le_of_lt hgt) hlt
      · rename_i cause hcause
        cases h
        exact ⟨done.length, .definition hentry hblank hnew hcause, hnone⟩

theorem firstOffends_of_readEntries (h : readEntries [] entries = .error error) :
    FirstOffends entries error := by
  have hnames : ([] : List Entity).map (·.name) = ([] : List (String × Json)).map (·.1) := rfl
  obtain ⟨position, hoffends, hfirst⟩ := offends_of_readEntries hnames h
  exact ⟨position, hoffends, fun earlier => hfirst earlier (Nat.zero_le _)⟩

theorem names_of_reads {entities : List Entity} (h : List.Forall₂ Reads entries entities) :
    entities.map (·.name) = entries.map (·.1) := by
  induction h with
  | nil => rfl
  | cons hread _ ih => rw [List.map_cons, List.map_cons, ih, hread.name_eq]

/-- Pairs that can be read are read one by one, and no others. -/
theorem readable_iff : Readable entries ↔
    ∃ entities, List.Forall₂ Reads entries entities ∧ (entities.map (·.name)).Nodup := by
  constructor
  · intro h
    have hread : ∀ entry ∈ entries, ∃ entity, Reads entry entity := by
      intro entry hentry
      obtain ⟨shape, hshape⟩ := h.lowers entry hentry
      exact ⟨⟨entry.1, entry.2, shape⟩, rfl, rfl, h.not_blank entry hentry, hshape⟩
    obtain ⟨entities, hreads⟩ := Pairing.exists_of_forall_mem hread
    exact ⟨entities, hreads, names_of_reads hreads ▸ h.nodup⟩
  · rintro ⟨entities, hreads, hnodup⟩
    have hread : ∀ entry ∈ entries, ∃ entity, Reads entry entity := fun entry hentry =>
      (Pairing.exists_of_mem_left hreads hentry).imp fun _ h => h.2
    refine ⟨fun entry hentry => ?_, names_of_reads hreads ▸ hnodup, fun entry hentry => ?_⟩
    · exact (hread entry hentry).elim fun _ h => h.not_blank
    · obtain ⟨entity, hentity⟩ := hread entry hentry
      exact ⟨_, hentity.shape⟩

section Cycle

variable (hreads : List.Forall₂ Reads entries registry.entities) (hnodup : registry.names.Nodup)

include hreads hnodup

theorem get?_eq_some_iff_of_reads {entity : Entity} :
    registry.get? name = some entity ↔ ∃ definition, (name, definition) ∈ entries ∧
      Shape.ofDefinition definition = .ok entity.shape ∧
        entity = ⟨name, definition, entity.shape⟩ := by
  rw [get?_eq_some_iff hnodup]
  constructor
  · rintro ⟨hmem, rfl⟩
    obtain ⟨⟨name, definition⟩, hentry, hread⟩ := Pairing.exists_of_mem_right hreads hmem
    obtain ⟨name', definition', shape⟩ := entity
    obtain ⟨rfl, rfl, -, hshape⟩ := hread
    exact ⟨_, hentry, hshape, rfl⟩
  · rintro ⟨definition, hentry, hshape, hentity⟩
    obtain ⟨other, hother, hread⟩ := Pairing.exists_of_mem_left hreads hentry
    have hshape' := hread.shape
    rw [hshape, Except.ok.injEq] at hshape'
    obtain ⟨name', definition', shape'⟩ := other
    obtain ⟨rfl, rfl, -, -⟩ := hread
    rw [hentity, hshape']
    exact ⟨hother, rfl⟩

theorem exposes_iff_refers :
    Exposes entries name other ↔ other ∈ registry.names ∧ registry.Refers name other := by
  rw [Exposes, refers_iff, names, names_of_reads hreads]
  refine and_congr_right fun _ => ⟨?_, ?_⟩
  · rintro ⟨definition, shape, hentry, hshape, hexposes⟩
    have hget : registry.get? name = some ⟨name, definition, shape⟩ :=
      (get?_eq_some_iff_of_reads hreads hnodup).mpr ⟨definition, hentry, hshape, rfl⟩
    exact ⟨shape, by rw [shape?, hget]; rfl, Shape.exposes_iff.mp hexposes⟩
  · rintro ⟨shape, hshape, hkey⟩
    obtain ⟨entity, hget, rfl⟩ := Option.map_eq_some_iff.mp hshape
    obtain ⟨definition, hentry, hlowers, -⟩ :=
      (get?_eq_some_iff_of_reads hreads hnodup).mp hget
    exact ⟨definition, _, hentry, hlowers, Shape.exposes_iff.mpr hkey⟩

/-- A cycle visits names of the list only, so dangling references make no difference. -/
theorem onCycle_iff : OnCycle entries name ↔ registry.isUnguarded name = true := by
  rw [isUnguarded_iff, OnCycle]
  have hexposes : Exposes entries = fun name other =>
      other ∈ registry.names ∧ registry.Refers name other := by
    funext name other
    rw [exposes_iff_refers hreads hnodup]
  rw [hexposes]
  constructor
  · have hmono : (fun name other => other ∈ registry.names ∧ registry.Refers name other) ≤
        registry.Refers := fun _ _ h => h.2
    exact TransGen.mono hmono name name
  · intro h
    obtain ⟨first, hfirst, -⟩ := TransGen.head'_iff.mp h
    exact Chain.transGen_among (fun _ _ => mem_names_of_refers) (mem_names_of_refers hfirst) h

theorem firstOnCycle_of_find? {entity : Entity}
    (h : registry.entities.find? (fun entity => registry.isUnguarded entity.name) = some entity) :
    FirstOnCycle entries entity.name := by
  obtain ⟨hcycle, position, hposition, hentity, hfirst⟩ := List.find?_eq_some_iff_getElem.mp h
  have hread := Pairing.getElem? hreads position
  rw [List.getElem?_eq_getElem hposition, hentity] at hread
  generalize hentry : entries[position]? = entry? at hread
  cases hread with
  | @some entry _ hread =>
      refine ⟨position, entry.2, ?_, (onCycle_iff hreads hnodup).mpr hcycle, ?_⟩
      · rw [hentry, hread.name_eq]
      · intro earlier hlt other hother hothers
        have hread' := Pairing.getElem? hreads earlier
        have hearlier : earlier < registry.entities.length := Nat.lt_trans hlt hposition
        rw [hother, List.getElem?_eq_getElem hearlier] at hread'
        cases hread' with
        | some hread' =>
            have hnot := hfirst earlier hlt
            rw [hread'.name_eq, (onCycle_iff hreads hnodup).mp hothers] at hnot
            exact nomatch hnot

end Cycle

theorem FirstOnCycle.unique (h : FirstOnCycle entries name) (h' : FirstOnCycle entries other) :
    name = other := by
  obtain ⟨position, definition, hentry, hcycle, hfirst⟩ := h
  obtain ⟨position', definition', hentry', hcycle', hfirst'⟩ := h'
  have heq : position = position' :=
    eq_of_first
      (p := fun position => ∃ entry, entries[position]? = some entry ∧ OnCycle entries entry.1)
      ⟨_, hentry, hcycle⟩ (fun earlier hlt ⟨entry, h⟩ => hfirst earlier hlt entry h.1 h.2)
      ⟨_, hentry', hcycle'⟩ fun earlier hlt ⟨entry, h⟩ => hfirst' earlier hlt entry h.1 h.2
  rw [heq, hentry', Option.some.injEq, Prod.mk.injEq] at hentry
  exact hentry.1.symm

/-- What indexing tells of a list that it does not index. -/
theorem ofEntries_eq_error (h : ofEntries entries = .error error) :
    FirstOffends entries error ∨
      Readable entries ∧ ∃ name, error = .unguardedRecursion name ∧ FirstOnCycle entries name := by
  cases hread : readEntries [] entries with
  | error fault =>
      rw [ofEntries, hread] at h
      cases h
      exact Or.inl (firstOffends_of_readEntries hread)
  | ok entities =>
      have hnil : (([] : List Entity).map (·.name)).Nodup := List.nodup_nil
      obtain ⟨_, rfl, hreads, hnodup⟩ := (readEntries_eq_ok_iff hnil).mp hread
      have hreads : List.Forall₂ Reads entries (Registry.mk entities).entities := hreads
      refine Or.inr ⟨readable_iff.mpr ⟨_, hreads, hnodup⟩, ?_⟩
      rw [ofEntries, hread] at h
      dsimp only [bind, Except.bind] at h
      split at h
      · rename_i entity hfound
        cases h
        exact ⟨entity.name, rfl, firstOnCycle_of_find? hreads hnodup hfound⟩
      · cases h

theorem exists_ofEntries_iff : (∃ registry, ofEntries entries = .ok registry) ↔
    Readable entries ∧ ∀ name ∈ entries.map (·.1), ¬OnCycle entries name := by
  constructor
  · rintro ⟨registry, h⟩
    obtain ⟨hreads, hnodup, hacyclic⟩ := ofEntries_eq_ok_iff.mp h
    refine ⟨readable_iff.mpr ⟨_, hreads, hnodup⟩, fun name _ hcycle => hacyclic name ?_⟩
    rwa [onCycle_iff hreads hnodup, isUnguarded_iff] at hcycle
  · rintro ⟨hreadable, hacyclic⟩
    obtain ⟨entities, hreads, hnodup⟩ := readable_iff.mp hreadable
    have hreads : List.Forall₂ Reads entries (Registry.mk entities).entities := hreads
    refine ⟨⟨entities⟩, ofEntries_of_reads hreads hnodup (List.find?_eq_none.mpr ?_)⟩
    intro entity hentity hunguarded
    refine hacyclic entity.name ?_ ((onCycle_iff hreads hnodup).mpr hunguarded)
    rw [← names_of_reads hreads]
    exact List.mem_map_of_mem hentity

/-- What an indexed registry holds. -/
theorem get?_of_ofEntries (h : ofEntries entries = .ok registry) :
    registry.names = entries.map (·.1) ∧
      (∀ name definition, (name, definition) ∈ entries → ∃ shape,
        Shape.ofDefinition definition = .ok shape ∧
          registry.get? name = some ⟨name, definition, shape⟩) ∧
      ∀ name ∉ entries.map (·.1), registry.get? name = none := by
  obtain ⟨hreads, hnodup, -⟩ := ofEntries_eq_ok_iff.mp h
  refine ⟨names_of_reads hreads, fun name definition hentry => ?_, fun name hname => ?_⟩
  · obtain ⟨entity, -, hread⟩ := Pairing.exists_of_mem_left hreads hentry
    exact ⟨_, hread.shape, (get?_eq_some_iff_of_reads hreads hnodup).mpr
      ⟨definition, hentry, hread.shape, rfl⟩⟩
  · rw [Option.eq_none_iff_forall_not_mem]
    intro entity hentity
    obtain ⟨definition, hentry, -⟩ := (get?_eq_some_iff_of_reads hreads hnodup).mp hentity
    exact hname (List.mem_map_of_mem (f := (·.1)) hentry)

theorem ofEntries_eq_error_iff : ofEntries entries = .error error ↔ FirstOffends entries error ∨
    (∀ position fault, ¬Offends entries position fault) ∧
      ∃ name, error = .unguardedRecursion name ∧ FirstOnCycle entries name := by
  constructor
  · exact fun h => (ofEntries_eq_error h).imp_right fun ⟨hreadable, hcycle⟩ =>
      ⟨fun _ fault => hreadable.not_offends fault, hcycle⟩
  intro h
  cases hresult : ofEntries entries with
  | ok registry =>
      obtain ⟨hreadable, hacyclic⟩ := exists_ofEntries_iff.mp ⟨registry, hresult⟩
      rcases h with ⟨position, hoffends, -⟩ | ⟨-, name, -, position, definition, hentry, hcycle, -⟩
      · exact absurd hoffends (hreadable.not_offends error)
      · refine absurd hcycle (hacyclic name ?_)
        exact List.mem_map_of_mem (f := (·.1)) (List.mem_of_getElem? hentry)
  | error fault =>
      rw [Except.error.injEq]
      rcases ofEntries_eq_error hresult with hfirst | ⟨hreadable, name', rfl, hcycle'⟩
      · rcases h with hfirst' | ⟨hnone, -⟩
        · exact hfirst.unique hfirst'
        · obtain ⟨position, hoffends, -⟩ := hfirst
          exact absurd hoffends (hnone position fault)
      · rcases h with ⟨position, hoffends, -⟩ | ⟨-, name, rfl, hcycle⟩
        · exact absurd hoffends (hreadable.not_offends error)
        · rw [hcycle'.unique hcycle]

/-- Indexing accepts the lists in which every pair can be read and no name is on a cycle, and keeps
what it has read. Of another list it reports the first pair that offends, and only if no pair does
the first name on a cycle; references that dangle are no offence. -/
theorem ofEntries_exact (entries : List (String × Json)) :
    ((∃ registry, ofEntries entries = .ok registry) ↔
      Readable entries ∧ ∀ name ∈ entries.map (·.1), ¬OnCycle entries name) ∧
    (∀ registry, ofEntries entries = .ok registry →
      registry.names = entries.map (·.1) ∧
        (∀ name definition, (name, definition) ∈ entries → ∃ shape,
          Shape.ofDefinition definition = .ok shape ∧
            registry.get? name = some ⟨name, definition, shape⟩) ∧
        ∀ name ∉ entries.map (·.1), registry.get? name = none) ∧
    (∀ error, ofEntries entries = .error error ↔ FirstOffends entries error ∨
      (∀ position fault, ¬Offends entries position fault) ∧
        ∃ name, error = .unguardedRecursion name ∧ FirstOnCycle entries name) ∧
    (Readable entries → (∀ entry ∈ entries, ∀ shape, Shape.ofDefinition entry.2 = .ok shape →
      ∀ key ∈ shape.references, key ∉ entries.map (·.1)) →
        ∃ registry, ofEntries entries = .ok registry) := by
  refine ⟨exists_ofEntries_iff, fun _ => get?_of_ofEntries, fun _ => ofEntries_eq_error_iff, ?_⟩
  intro hreadable hdangling
  refine exists_ofEntries_iff.mpr ⟨hreadable, fun name _ hcycle => ?_⟩
  obtain ⟨other, ⟨hother, definition, shape, hentry, hshape, hexposes⟩, -⟩ :=
    TransGen.head'_iff.mp hcycle
  exact hdangling _ hentry shape hshape other hexposes.mem_references hother

end Registry

end EntityContract
