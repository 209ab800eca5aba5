import EntityContract.Model.Server
import EntityContract.Proofs.Json.Equality
import EntityContract.Proofs.Registry.Normalization

/-!
Reading what validation made of a value. A decoder keeps a value if it reads it and what is
written of the result is the value again; the readers of a record keep its declared fields one by
one and the others together, and from that the record is kept as a whole.
-/

namespace EntityContract

/-- The value is read as `a`, and as far as `faithful` holds it is what is written of `a`. -/
structure Decoder.Keeps {α : Type} (faithful : Prop) (decode : Decoder α) (encode : α → Json)
    (value : Json) (a : α) : Prop where
  reads : decode value = .ok a
  writes : faithful → (encode a).same value = true

namespace Members

/-- The members hold equal values under the same keys. -/
structure Writes (written members : Members) : Prop where
  nodup : (written.map (·.1)).Nodup
  lookup : ∀ key, Option.Rel (fun x y => x.same y = true) (written.lookup key) (members.lookup key)

theorem Writes.same {written members : Members} (h : written.Writes members)
    (hmembers : (members.map (·.1)).Nodup) : (Json.obj written).same (.obj members) = true :=
  (Json.same_obj_iff_lookup h.nodup hmembers).mpr h.lookup

theorem writes_of_forall₂ {written members : Members} (hnodup : (members.map (·.1)).Nodup)
    (h : List.Forall₂ (fun x y => x.1 = y.1 ∧ x.2.same y.2 = true) written members) :
    written.Writes members := by
  have hkeys : written.map (·.1) = members.map (·.1) := by
    rw [← List.forall₂_eq_eq_eq, List.forall₂_map_left_iff, List.forall₂_map_right_iff]
    exact h.imp fun _ _ hpair => hpair.1
  refine ⟨hkeys ▸ hnodup, fun key => ?_⟩
  clear hkeys hnodup
  induction h with
  | nil => exact .none
  | @cons x y _ _ hhead _ ih =>
      obtain ⟨name, value⟩ := x
      obtain ⟨other, output⟩ := y
      obtain ⟨rfl, hsame⟩ := hhead
      rw [List.lookup_cons, List.lookup_cons]
      cases key == name with
      | true => exact .some hsame
      | false => exact ih

theorem Writes.perm {written written' members : Members} (h : written.Writes members)
    (hperm : written.Perm written') : written'.Writes members := by
  have hnodup := (hperm.map (·.1)).nodup_iff.mp h.nodup
  refine ⟨hnodup, fun key => ?_⟩
  have hlookup : written'.lookup key = written.lookup key := by
    apply Option.ext
    intro value
    rw [Association.lookup_eq_some_iff hnodup, Association.lookup_eq_some_iff h.nodup,
      hperm.mem_iff]
  rw [hlookup]
  exact h.lookup key

theorem lookup_without (names : List String) (members : Members) (key : String) :
    (members.without names).lookup key =
      if names.contains key then none else members.lookup key := by
  rw [Members.without, Association.lookup_filter members (fun key => !names.contains key)]
  cases names.contains key <;> rfl

theorem nodup_without (names : List String) {members : Members}
    (h : (members.map (·.1)).Nodup) : ((members.without names).map (·.1)).Nodup :=
  h.sublist ((List.filter_sublist).map _)

theorem proper_without (names : List String) {members : Members} (h : (Json.obj members).Proper) :
    (Json.obj (members.without names)).Proper :=
  Json.proper_obj.mpr ⟨nodup_without names h.nodup,
    fun _ hmem => (Json.proper_obj.mp h).2 _ (List.mem_of_mem_filter hmem)⟩

/-- Without the members of some names there is what the other fields make of the others. -/
theorem normalizes_without {registry : Registry} {fields : Fields} {members outputs : Members}
    (h : registry.NormalizesMembers ⟨fields, .passthrough⟩ members outputs) (names : List String) :
    registry.NormalizesMembers ⟨fields.filter fun field => !names.contains field.1, .passthrough⟩
      (members.without names) (outputs.without names) := by
  intro key
  dsimp only
  rw [lookup_without, lookup_without, Association.lookup_filter fields (!names.contains ·)]
  cases names.contains key with
  | true => exact .kept none
  | false => exact h key

/-- The members of the fields that have a value. -/
def ofPieces (pieces : List (String × Option Json)) : Members :=
  pieces.filterMap fun piece => piece.2.map (piece.1, ·)

theorem keys_ofPieces_sublist (pieces : List (String × Option Json)) :
    ((ofPieces pieces).map (·.1)).Sublist (pieces.map (·.1)) := by
  induction pieces with
  | nil => exact List.Sublist.refl []
  | cons piece pieces ih =>
      obtain ⟨name, value?⟩ := piece
      cases value? with
      | none => exact ih.cons name
      | some value => exact ih.cons_cons name

theorem lookup_ofPieces {pieces : List (String × Option Json)}
    (hnodup : (pieces.map (·.1)).Nodup) (key : String) :
    (ofPieces pieces).lookup key = (pieces.lookup key).join := by
  apply Option.ext
  intro value
  rw [Association.lookup_eq_some_iff (hnodup.sublist (keys_ofPieces_sublist pieces)),
    Option.join_eq_some_iff, Association.lookup_eq_some_iff hnodup, ofPieces, List.mem_filterMap]
  constructor
  · rintro ⟨⟨name, value?⟩, hmem, hpiece⟩
    obtain ⟨value, rfl, heq⟩ := Option.map_eq_some_iff.mp hpiece
    cases heq
    exact hmem
  · exact fun hmem => ⟨(key, some value), hmem, rfl⟩

@[simp] theorem ofPieces_nil : ofPieces [] = [] := rfl

theorem ofPieces_cons_some (name : String) (value : Json)
    (pieces : List (String × Option Json)) :
    ofPieces ((name, some value) :: pieces) = (name, value) :: ofPieces pieces := rfl

theorem ofPieces_cons_map {α : Type} (name : String) (encode : α → Json) (value? : Option α)
    (pieces : List (String × Option Json)) :
    ofPieces ((name, value?.map encode) :: pieces) =
      Encode.optional name encode value? ++ ofPieces pieces := by
  cases value? <;> rfl

/-- The fields on their own, and the other members as `base`. -/
theorem writes_append {names : List String} {base members : Members}
    {pieces : List (String × Option Json)} (hbase : base.Writes (members.without names))
    (hnames : pieces.map (·.1) = names) (hnodup : names.Nodup)
    (hpieces : ∀ piece ∈ pieces,
      Option.Rel (fun x y => x.same y = true) piece.2 (members.lookup piece.1)) :
    (base ++ ofPieces pieces).Writes members := by
  subst hnames
  have hnone : ∀ key ∈ pieces.map (·.1), base.lookup key = none := by
    intro key hkey
    have hrel := hbase.lookup key
    rw [lookup_without, if_pos (List.contains_iff_mem.mpr hkey)] at hrel
    generalize base.lookup key = value? at hrel ⊢
    cases hrel
    rfl
  refine ⟨?_, fun key => ?_⟩
  · rw [List.map_append]
    refine hbase.nodup.append (hnodup.sublist (keys_ofPieces_sublist pieces)) ?_
    intro key hkey hmem
    have hlookup := hnone key ((keys_ofPieces_sublist pieces).subset hmem)
    exact Association.lookup_eq_none_iff.mp hlookup hkey
  · rw [List.lookup_append, lookup_ofPieces hnodup]
    by_cases hkey : key ∈ pieces.map (·.1)
    · obtain ⟨value?, hvalue⟩ := Association.exists_lookup_of_mem_keys hkey
      rw [hnone key hkey, hvalue]
      exact hpieces _ (Association.mem_of_lookup hvalue)
    · have hrel := hbase.lookup key
      rw [lookup_without, if_neg (by simpa using hkey)] at hrel
      rw [Association.lookup_eq_none_iff.mpr hkey]
      simpa using hrel

theorem writes_self {members : Members} (h : (Json.obj members).Proper) :
    members.Writes members := by
  refine ⟨h.nodup, fun key => ?_⟩
  cases hlookup : members.lookup key with
  | none => exact .none
  | some value => exact .some (Json.same_refl (h.lookup hlookup))

end Members

namespace Decoder

variable {α : Type} {registry : Registry} {faithful : Prop} {value output : Json}

theorem keeps_text {format : StringFormat}
    (h : registry.Normalizes (.string format) value output) :
    ∃ a, text.Keeps faithful .str output a := by
  cases h with
  | @string _ a => exact ⟨a, rfl, fun _ => Json.same_str_iff.mpr rfl⟩
  | object _ hflattens => cases hflattens

theorem keeps_flag (h : registry.Normalizes .boolean value output) :
    ∃ a, flag.Keeps faithful .bool output a := by
  cases h with
  | boolean a => exact ⟨a, rfl, fun _ => Json.same_bool_iff.mpr rfl⟩
  | object _ hflattens => cases hflattens

/-- A closed list of names is read by the variants of these names. -/
theorem keeps_variant {variants : List (String × α)} {encode : α → Json}
    (h : registry.Normalizes (.enum (variants.map (·.1))) value output)
    (hencode : ∀ entry ∈ variants, encode entry.2 = .str entry.1) :
    ∃ a, (variant variants).Keeps faithful encode output a := by
  cases h with
  | @enum _ text hmem =>
      obtain ⟨a, hlookup⟩ := Association.exists_lookup_of_mem_keys hmem
      refine ⟨a, ?_, fun _ => ?_⟩
      · rw [variant, variant.find, hlookup]
      · rw [hencode _ (Association.mem_of_lookup hlookup)]
        exact Json.same_str_iff.mpr rfl
  | object _ hflattens => cases hflattens

theorem mapM_eq_ok_of_forall₂ {β : Type} {f : α → Except DecodeError β} {xs : List α} {ys : List β}
    (h : List.Forall₂ (fun x y => f x = .ok y) xs ys) : xs.mapM f = .ok ys := by
  induction h with
  | nil => rfl
  | cons hhead _ ih =>
      rw [List.mapM_cons, hhead, ih]
      rfl

/-- The elements of an array one by one, with what they have to do with what is read. -/
theorem keeps_list_rel {shape : Shape} {item : Decoder α} {encode : α → Json} {r : Json → α → Prop}
    (faithful : Prop) (h : registry.Normalizes (.array shape) value output)
    (hproper : output.Proper)
    (hitem : ∀ items, value = .arr items → ∀ part ∈ items, ∀ output, output.Proper →
      registry.Normalizes shape.present part output →
        ∃ a, item.Keeps faithful encode output a ∧ r part a) :
    ∃ as, (list item).Keeps faithful (Encode.list encode) output as ∧
      ∃ items, value = .arr items ∧ List.Forall₂ r items as := by
  obtain ⟨items, outputs, rfl, rfl, hitems⟩ := Registry.normalizes_array_iff.mp h
  have hread : ∀ parts outputs, (∀ part ∈ parts, part ∈ items) →
      (∀ output ∈ outputs, output.Proper) →
      List.Forall₂ (registry.Normalizes shape.present) parts outputs →
        ∃ as, List.Forall₂ (item.Keeps faithful encode) outputs as ∧ List.Forall₂ r parts as := by
    intro parts outputs hparts houtputs h
    induction h with
    | nil => exact ⟨[], .nil, .nil⟩
    | cons hhead _ ih =>
        rw [List.forall_mem_cons] at hparts houtputs
        obtain ⟨a, ha, hr⟩ := hitem items rfl _ hparts.1 _ houtputs.1 hhead
        obtain ⟨as, has, hrs⟩ := ih hparts.2 houtputs.2
        exact ⟨a :: as, .cons ha has, .cons hr hrs⟩
  obtain ⟨as, has, hrs⟩ :=
    hread items outputs (fun _ hmem => hmem) (Json.proper_arr.mp hproper) hitems
  refine ⟨as, ⟨mapM_eq_ok_of_forall₂ (has.imp fun _ _ ha => ha.reads), fun hfaithful => ?_⟩,
    items, rfl, hrs⟩
  rw [Encode.list, Json.same_arr_iff, List.forall₂_map_left_iff]
  exact has.flip.imp fun _ _ ha => ha.writes hfaithful

theorem keeps_list {shape : Shape} {item : Decoder α} {encode : α → Json}
    (h : registry.Normalizes (.array shape) value output) (hproper : output.Proper)
    (hitem : ∀ value output, output.Proper → registry.Normalizes shape.present value output →
      ∃ a, item.Keeps faithful encode output a) :
    ∃ as, (list item).Keeps faithful (Encode.list encode) output as := by
  have hlist := keeps_list_rel (r := fun _ _ => True) faithful h hproper
    fun _ _ part _ output hproper h => by
      obtain ⟨a, ha⟩ := hitem part output hproper h
      exact ⟨a, ha, trivial⟩
  obtain ⟨as, has, -⟩ := hlist
  exact ⟨as, has⟩

theorem keeps_texts {format : StringFormat}
    (h : registry.Normalizes (.array (.string format)) value output) (hproper : output.Proper) :
    ∃ texts, (list text).Keeps faithful (fun texts => .arr (texts.map .str)) output texts :=
  keeps_list h hproper fun _ _ _ => keeps_text

/-- The values of a map one by one, under their keys. -/
theorem keeps_record {shape : Shape} {item : Decoder α} {encode : α → Json} (faithful : Prop)
    (h : registry.Normalizes (.record shape) value output) (hproper : output.Proper)
    (hitem : ∀ value output, output.Proper → registry.Normalizes shape.present value output →
      ∃ a, item.Keeps faithful encode output a) :
    ∃ outputs entries, output = .obj outputs ∧ record item output = .ok entries ∧
      (entries.map (·.1)).Nodup ∧
      (faithful → Members.Writes (entries.map fun entry => (entry.1, encode entry.2)) outputs) := by
  obtain ⟨members, outputs, rfl, rfl, hmembers⟩ := Registry.normalizes_record_iff.mp h
  have hread : ∀ members outputs : Members, (∀ output ∈ outputs, output.2.Proper) →
      List.Forall₂ (fun member output => member.1 = output.1 ∧
        registry.Normalizes shape.present member.2 output.2) members outputs →
        ∃ entries, List.Forall₂ (fun output (entry : String × α) => entry.1 = output.1 ∧
          item.Keeps faithful encode output.2 entry.2) outputs entries := by
    intro members outputs houtputs h
    induction h with
    | nil => exact ⟨[], .nil⟩
    | @cons member output _ _ hhead _ ih =>
        rw [List.forall_mem_cons] at houtputs
        obtain ⟨a, ha⟩ := hitem _ _ houtputs.1 hhead.2
        obtain ⟨entries, hentries⟩ := ih houtputs.2
        exact ⟨(output.1, a) :: entries, .cons ⟨rfl, ha⟩ hentries⟩
  obtain ⟨entries, hentries⟩ := hread members outputs (Json.proper_obj.mp hproper).2 hmembers
  have hkeys : entries.map (·.1) = outputs.map (·.1) := by
    rw [← List.forall₂_eq_eq_eq, List.forall₂_map_left_iff, List.forall₂_map_right_iff]
    exact hentries.flip.imp fun _ _ hentry => hentry.1
  refine ⟨outputs, entries, rfl, mapM_eq_ok_of_forall₂ (hentries.imp fun output entry hentry => ?_),
    hkeys ▸ hproper.nodup, fun hfaithful => Members.writes_of_forall₂ hproper.nodup ?_⟩
  · obtain ⟨key, value⟩ := output
    obtain ⟨rfl, hentry⟩ := hentry
    have hreads : item value = .ok entry.2 := hentry.reads
    dsimp only
    rw [hreads]
    rfl
  · rw [List.forall₂_map_left_iff]
    exact hentries.flip.imp fun _ _ hentry => ⟨hentry.1, hentry.2.writes hfaithful⟩

/-- An object whose members are read is kept if its members are. -/
theorem keeps_structured {name : String} {read : Members → Except DecodeError α}
    {encode : α → Json} {outputs written : Members} {a : α} (hproper : (Json.obj outputs).Proper)
    (hread : read outputs = .ok a) (hencode : encode a = .obj written)
    (hwrites : faithful → written.Writes outputs) :
    (structured name read).Keeps faithful encode (.obj outputs) a :=
  ⟨hread, fun hfaithful => hencode ▸ (hwrites hfaithful).same hproper.nodup⟩

end Decoder

namespace FieldReader

variable {α β : Type} {faithful : Prop} {members : Members}
  {pieces pieces' : List (String × Option Json)}

theorem read_seq (readers : FieldReader (α → β)) (reader : FieldReader α) (members : Members) :
    (readers <*> reader).read members =
      ⟨(readers.read members).value?.bind (reader.read members).value?.map,
        (readers.read members).bad ++ (reader.read members).bad,
        (readers.read members).missing ++ (reader.read members).missing⟩ := rfl

/-- The reader reads `a`, and as far as `faithful` holds the members of its fields are the
pieces. -/
structure Keeps (faithful : Prop) (reader : FieldReader α) (members : Members) (a : α)
    (pieces : List (String × Option Json)) : Prop where
  reads : reader.read members = ⟨some a, [], []⟩
  writes : faithful → ∀ piece ∈ pieces,
    Option.Rel (fun x y => x.same y = true) piece.2 (members.lookup piece.1)

theorem Keeps.run {reader : FieldReader α} {a : α} (h : reader.Keeps faithful members a pieces) :
    reader.run members = .ok a := by
  have hnone : members.findSome?
      (fun member => ([] : List (String × DecodeError)).lookup member.1) = none := by
    simp
  rw [FieldReader.run, h.reads]
  dsimp only
  rw [hnone]

theorem Keeps.map {reader : FieldReader α} {a : α} (h : reader.Keeps faithful members a pieces)
    (f : α → β) : (f <$> reader).Keeps faithful members (f a) pieces := by
  refine ⟨?_, h.writes⟩
  have hmap : (f <$> reader).read members =
      ⟨(reader.read members).value?.map f, (reader.read members).bad,
        (reader.read members).missing⟩ := rfl
  rw [hmap, h.reads]
  rfl

theorem Keeps.seq {readers : FieldReader (α → β)} {reader : FieldReader α} {f : α → β} {a : α}
    (h : readers.Keeps faithful members f pieces) (h' : reader.Keeps faithful members a pieces') :
    (readers <*> reader).Keeps faithful members (f a) (pieces ++ pieces') := by
  refine ⟨?_, fun hfaithful piece hpiece => ?_⟩
  · rw [read_seq, h.reads, h'.reads]
    rfl
  · rcases List.mem_append.mp hpiece with hpiece | hpiece
    · exact h.writes hfaithful piece hpiece
    · exact h'.writes hfaithful piece hpiece

theorem value?_of_run {reader : FieldReader α} {a : α} (h : reader.run members = .ok a) :
    (reader.read members).value? = some a := by
  rw [FieldReader.run] at h
  split at h
  · exact nomatch h
  · exact nomatch h
  · rename_i hvalue
    rw [hvalue, Except.ok.inj h]
  · exact nomatch h

theorem value?_map_eq_some {f : α → β} {reader : FieldReader α} {b : β}
    (h : ((f <$> reader).read members).value? = some b) :
    ∃ a, (reader.read members).value? = some a ∧ f a = b :=
  Option.map_eq_some_iff.mp h

theorem value?_seq_eq_some {readers : FieldReader (α → β)} {reader : FieldReader α} {b : β}
    (h : ((readers <*> reader).read members).value? = some b) :
    ∃ f a, (readers.read members).value? = some f ∧ (reader.read members).value? = some a ∧
      f a = b := by
  obtain ⟨f, hf, h⟩ := Option.bind_eq_some_iff.mp h
  obtain ⟨a, ha, rfl⟩ := Option.map_eq_some_iff.mp h
  exact ⟨f, a, hf, ha, rfl⟩

/-- A field that is read was there and well formed, or its absence brings a value. -/
theorem value?_orAbsent_eq_some {name : String} {decode : Decoder α} {absent : FieldsRead α} {a : α}
    (h : ((orAbsent name decode absent).read members).value? = some a) :
    (∃ value, members.lookup name = some value ∧ decode value = .ok a) ∨
      (members.lookup name = none ∧ absent.value? = some a) := by
  rw [orAbsent] at h
  dsimp only at h
  split at h
  · rename_i hlookup
    exact Or.inr ⟨hlookup, h⟩
  · rename_i value hlookup
    split at h
    · rename_i hdecode
      exact Or.inl ⟨value, hlookup, hdecode.trans (congrArg _ (Option.some.inj h))⟩
    · exact nomatch h

theorem value?_required_eq_some {name : String} {decode : Decoder α} {a : α}
    (h : ((required name decode).read members).value? = some a) :
    ∃ value, members.lookup name = some value ∧ decode value = .ok a := by
  rcases value?_orAbsent_eq_some h with hfound | ⟨-, hnone⟩
  · exact hfound
  · cases hnone

/-- Read fields and the other members, written one behind the other. -/
theorem Keeps.writes_extra {reader : FieldReader α} {a : α}
    (h : reader.Keeps faithful members a pieces) (names : List String)
    (hproper : (Json.obj members).Proper)
    (hnames : pieces.map (·.1) = names) (hnodup : names.Nodup) (hfaithful : faithful) :
    (Members.ofPieces pieces ++ members.without names).Writes members := by
  have hextra := Members.writes_self (Members.proper_without names hproper)
  exact (Members.writes_append hextra hnames hnodup (h.writes hfaithful)).perm
    List.perm_append_comm

/-- The reader meets one bad field and nothing that is missing. -/
def Fails (reader : FieldReader α) (members : Members) (name : String) (cause : DecodeError) :
    Prop :=
  reader.read members = ⟨none, [(name, cause)], []⟩

section Fails

variable {name : String} {cause : DecodeError}

theorem Fails.seq {readers : FieldReader (α → β)} {reader : FieldReader α} {a : α}
    (h : readers.Fails members name cause) (h' : reader.Keeps faithful members a pieces) :
    (readers <*> reader).Fails members name cause := by
  rw [Fails, read_seq, h, h'.reads]
  rfl

theorem Keeps.seq_fails {readers : FieldReader (α → β)} {reader : FieldReader α} {f : α → β}
    (h : readers.Keeps faithful members f pieces) (h' : reader.Fails members name cause) :
    (readers <*> reader).Fails members name cause := by
  rw [Fails, read_seq, h.reads, h']
  rfl

/-- A single bad field of the record is what is reported. -/
theorem Fails.run {reader : FieldReader α} (h : reader.Fails members name cause)
    (hmem : name ∈ members.map (·.1)) : reader.run members = .error cause := by
  have hfound : members.findSome? (fun member => [(name, cause)].lookup member.1) = some cause := by
    clear h
    induction members with
    | nil => exact nomatch hmem
    | cons member members ih =>
        rw [List.findSome?_cons, List.lookup_cons, List.lookup_nil]
        by_cases hname : member.1 = name
        · rw [beq_iff_eq.mpr hname]
        · rw [beq_eq_false_iff_ne.mpr hname]
          rw [List.map_cons, List.mem_cons] at hmem
          exact ih (hmem.resolve_left fun heq => hname heq.symm)
  rw [FieldReader.run, h]
  dsimp only
  rw [hfound]

end Fails

theorem keeps_extra (faithful : Prop) (names : List String) (members : Members) :
    (extra names).Keeps faithful members (members.without names) [] :=
  ⟨rfl, fun _ _ hpiece => nomatch hpiece⟩

theorem read_orAbsent_of_ok {name : String} {decode : Decoder α} {absent : FieldsRead α}
    {value : Json} {a : α} (hlookup : members.lookup name = some value)
    (hdecode : decode value = .ok a) :
    (orAbsent name decode absent).read members = ⟨some a, [], []⟩ := by
  simp only [orAbsent, hlookup, hdecode]

theorem fails_orAbsent {name : String} {decode : Decoder α} {absent : FieldsRead α} {value : Json}
    {cause : DecodeError} (hlookup : members.lookup name = some value)
    (hdecode : decode value = .error cause) :
    (orAbsent name decode absent).Fails members name cause := by
  simp only [Fails, orAbsent, hlookup, hdecode]

/-- A bad value of a field that may be absent is bad all the same. -/
theorem fails_optional {name : String} {decode : Decoder α} {value : Json} {cause : DecodeError}
    (hlookup : members.lookup name = some value) (hnull : value ≠ .null)
    (hdecode : decode value = .error cause) :
    (optional name decode).Fails members name cause := by
  refine fails_orAbsent hlookup ?_
  cases value with
  | null => exact absurd rfl hnull
  | _ => simp only [hdecode, Except.map]

theorem read_orAbsent_of_none {name : String} {decode : Decoder α} {absent : FieldsRead α}
    (hlookup : members.lookup name = none) :
    (orAbsent name decode absent).read members = absent := by
  simp only [orAbsent, hlookup]

section Fields

variable {registry : Registry} {object : ObjectShape} {outputs : Members} {name : String}
  {shape : Shape} {decode : Decoder α} {encode : α → Json} {value : Json} {a : α}

theorem keeps_orAbsent (absent : FieldsRead α) (hlookup : outputs.lookup name = some value)
    (ha : decode.Keeps faithful encode value a) :
    (orAbsent name decode absent).Keeps faithful outputs a [(name, some (encode a))] := by
  refine ⟨read_orAbsent_of_ok hlookup ha.reads, fun hfaithful piece hpiece => ?_⟩
  rw [List.mem_singleton.mp hpiece, hlookup]
  exact .some (ha.writes hfaithful)

variable (faithful name) (h : registry.NormalizesMembers object members outputs)
  (hproper : (Json.obj outputs).Proper)

include h hproper

/-- A field that is never absent, with the member that it is made from. -/
theorem keeps_required_from (hfield : object.fields.lookup name = some shape)
    (hrequired : shape.isOptional = false)
    (hdecode : ∀ value output, members.lookup name = some value → output.Proper →
      registry.Normalizes shape.present value output →
        ∃ a, decode.Keeps faithful encode output a) :
    ∃ a, (required name decode).Keeps faithful outputs a [(name, some (encode a))] := by
  rcases h.declared hfield with ⟨value, output, hlookup, houtput, hvalue⟩ | ⟨-, hoptional, -⟩
  · obtain ⟨a, ha⟩ := hdecode value output hlookup (hproper.lookup houtput) hvalue
    exact ⟨a, keeps_orAbsent _ houtput ha⟩
  · rw [hrequired] at hoptional
    exact nomatch hoptional

theorem keeps_required (hfield : object.fields.lookup name = some shape)
    (hrequired : shape.isOptional = false)
    (hdecode : ∀ value output, output.Proper → registry.Normalizes shape.present value output →
      ∃ a, decode.Keeps faithful encode output a) :
    ∃ a, (required name decode).Keeps faithful outputs a [(name, some (encode a))] :=
  keeps_required_from faithful name h hproper hfield hrequired
    fun value output _ => hdecode value output

/-- A field that has its default if it is absent. -/
theorem keeps_withDefault (encode : α → Json) (default : α)
    (hfield : object.fields.lookup name = some (.optional shape (some (encode default))))
    (hdecode : ∀ value output, output.Proper → registry.Normalizes shape.present value output →
      ∃ a, decode.Keeps faithful encode output a)
    (hdefault : decode (encode default) = .ok default) :
    ∃ a, (withDefault name decode default).Keeps faithful outputs a [(name, some (encode a))] := by
  rcases h.declared hfield with ⟨value, output, -, houtput, hvalue⟩ | ⟨-, -, houtput⟩
  · obtain ⟨a, ha⟩ := hdecode value output (hproper.lookup houtput) hvalue
    exact ⟨a, keeps_orAbsent _ houtput ha⟩
  · have houtput' : outputs.lookup name = some (encode default) := houtput
    exact ⟨default, keeps_orAbsent _ houtput'
      ⟨hdefault, fun _ => Json.same_refl (hproper.lookup houtput')⟩⟩

/-- A field that may be absent, and what its value has to do with what is read. -/
theorem keeps_optional_rel {r : Json → α → Prop}
    (hfield : object.fields.lookup name = some (.optional shape none))
    (hnone : shape.default? = none) (hnull : ∀ a, decode .null ≠ .ok a)
    (hdecode : ∀ value output, members.lookup name = some value → output.Proper →
      registry.Normalizes shape.present value output →
        ∃ a, decode.Keeps faithful encode output a ∧ r value a) :
    ∃ a?, (optional name decode).Keeps faithful outputs a? [(name, a?.map encode)] ∧
      Option.Rel r (members.lookup name) a? := by
  rcases h.declared hfield with ⟨value, output, hlookup, houtput, hvalue⟩ | ⟨hlookup, -, houtput⟩
  · obtain ⟨a, ha, hr⟩ := hdecode value output hlookup (hproper.lookup houtput) hvalue
    rw [hlookup]
    refine ⟨some a, ⟨read_orAbsent_of_ok houtput ?_, fun hfaithful piece hpiece => ?_⟩, .some hr⟩
    · have hreads := ha.reads
      cases output with
      | null => exact absurd hreads (hnull a)
      | _ => simp only [hreads, Except.map]
    · rw [List.mem_singleton.mp hpiece, houtput]
      exact .some (ha.writes hfaithful)
  · have houtput' : outputs.lookup name = none := houtput.trans hnone
    rw [hlookup]
    refine ⟨none, ⟨read_orAbsent_of_none houtput', fun _ piece hpiece => ?_⟩, .none⟩
    rw [List.mem_singleton.mp hpiece, houtput']
    exact .none

theorem keeps_optional_from (hfield : object.fields.lookup name = some (.optional shape none))
    (hnone : shape.default? = none) (hnull : ∀ a, decode .null ≠ .ok a)
    (hdecode : ∀ value output, members.lookup name = some value → output.Proper →
      registry.Normalizes shape.present value output →
        ∃ a, decode.Keeps faithful encode output a) :
    ∃ a?, (optional name decode).Keeps faithful outputs a? [(name, a?.map encode)] := by
  have hoptional := keeps_optional_rel (r := fun _ _ => True) faithful name h hproper hfield hnone
    hnull
    fun value output hlookup hproper hvalue => by
      obtain ⟨a, ha⟩ := hdecode value output hlookup hproper hvalue
      exact ⟨a, ha, trivial⟩
  obtain ⟨a?, ha?, -⟩ := hoptional
  exact ⟨a?, ha?⟩

theorem keeps_optional (hfield : object.fields.lookup name = some (.optional shape none))
    (hnone : shape.default? = none) (hnull : ∀ a, decode .null ≠ .ok a)
    (hdecode : ∀ value output, output.Proper → registry.Normalizes shape.present value output →
      ∃ a, decode.Keeps faithful encode output a) :
    ∃ a?, (optional name decode).Keeps faithful outputs a? [(name, a?.map encode)] :=
  keeps_optional_from faithful name h hproper hfield hnone hnull
    fun value output _ => hdecode value output

theorem keeps_required_text {format : StringFormat}
    (hfield : object.fields.lookup name = some (.string format)) :
    ∃ a, (required name .text).Keeps faithful outputs a [(name, some (.str a))] :=
  keeps_required faithful name h hproper hfield rfl fun _ _ _ => Decoder.keeps_text

theorem keeps_optional_text {format : StringFormat}
    (hfield : object.fields.lookup name = some (.optional (.string format) none)) :
    ∃ a?, (optional name .text).Keeps faithful outputs a? [(name, a?.map .str)] :=
  keeps_optional faithful name h hproper hfield rfl nofun fun _ _ _ => Decoder.keeps_text

theorem keeps_withDefault_flag {default : Bool}
    (hfield : object.fields.lookup name = some (.optional .boolean (some (.bool default)))) :
    ∃ a, (withDefault name .flag default).Keeps faithful outputs a [(name, some (.bool a))] :=
  keeps_withDefault faithful name h hproper .bool default hfield
    (fun _ _ _ => Decoder.keeps_flag) rfl

end Fields

end FieldReader

end EntityContract
