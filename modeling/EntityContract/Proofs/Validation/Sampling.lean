import Mathlib.Data.List.Basic
import Mathlib.Logic.Relation
import EntityContract.Proofs.Arena.Reach
import EntityContract.Proofs.Arena.Recursion

/-!
How a sample is made. Where asking for samples never comes to an entity that is on the way, the
sample of a node is made of the samples of other nodes as the form of the node says, down to nodes
that have a sample by themselves.
-/

namespace EntityContract

open Relation

namespace Uri

/-- The host of the sample of a URL. -/
def sampleHost : List Char := ['e', 'x', 'a', 'm', 'p', 'l', 'e', '.', 'c', 'o', 'm']

theorem fromUTF8?_toUTF8 (text : String) : String.fromUTF8? text.toUTF8 = some text := by
  rw [String.fromUTF8?]
  exact dif_pos text.isValidUTF8

theorem domain?_sampleHost : domain? sampleHost = some sampleHost := by
  have hbytes : (⟨(percentDecode (String.ofList sampleHost).toUTF8.toList).toArray⟩ : ByteArray) =
      (String.ofList sampleHost).toUTF8 := by
    with_unfolding_all rfl
  have hname : (sampleHost.filter (!isIgnoredInDomain ·)).map mapDomainChar = sampleHost := by
    rfl
  have hallowed : (sampleHost.any fun c =>
      isForbiddenInDomain c || isDisallowedInDomain c) = false := by
    rfl
  have hlabels : (Text.split '.' sampleHost).all isLabel = true := by
    rfl
  rw [domain?]
  simp only [hbytes, fromUTF8?_toUTF8, Option.bind_eq_bind, Option.bind_some, String.toList_ofList,
    hname, hallowed, hlabels]
  rfl

theorem checkHost_sampleHost : checkHost sampleHost = .ok () := by
  have hname : endsInNumber sampleHost = false := by
    rfl
  have hbracket : ∀ rest, sampleHost ≠ '[' :: rest := by
    simp [sampleHost]
  rw [checkHost.eq_2 _ hbracket, domain?_sampleHost]
  simp [sampleHost] at hname ⊢
  simp [hname]

/-- The check is followed step by step: the text is cut into a scheme and an authority, the
authority into a host and nothing else. -/
theorem check_sample : check (Sample.string .uri) = .ok () := by
  have hscheme : scheme? (clean (Sample.string .uri).toList) =
      some (['h', 't', 't', 'p', 's'], '/' :: '/' :: sampleHost) := by
    rfl
  have hkind : SchemeKind.ofName ['h', 't', 't', 'p', 's'] = .special := by
    rfl
  have hslashes : ('/' :: '/' :: sampleHost).dropWhile (isSlash .special) = sampleHost := by
    rfl
  have hauthority : sampleHost.takeWhile (fun c => !endsAuthority .special c) = sampleHost := by
    rfl
  have huser : splitUser sampleHost = (none, sampleHost) := by
    rfl
  have hspan : spanHost false sampleHost = (sampleHost, []) := by
    rfl
  rw [check, hscheme]
  dsimp only
  rw [hkind]
  dsimp only
  rw [hslashes, checkAuthority]
  simp only [hauthority, huser, hspan, checkHost_sampleHost]
  rfl

end Uri

namespace Node

/-- The nodes whose samples the sample of a node is made of. -/
def sampled : Node → List NodeId
  | .object fields _ => (fields.filter (·.required)).map (·.node)
  | .union variants => variants.head?.toList.map (·.node)
  | .intersection left right => [left, right]
  | .entity _ target => [target]
  | _ => []

theorem sampled_subset (node : Node) : node.sampled ⊆ node.children := by
  cases node with
  | object fields policy => exact List.map_subset _ (List.filter_subset_self fields)
  | union variants =>
      cases variants with
      | nil => exact List.nil_subset _
      | cons variant variants => exact List.cons_subset.mpr ⟨List.mem_cons_self, List.nil_subset _⟩
  | intersection left right => exact fun _ => id
  | entity key target => exact fun _ => id
  | _ => exact List.nil_subset _

end Node

namespace Sample

variable {arena : Arena} {root id other : NodeId} {onTheWay : List NodeId}

/-- The sample texts have the formats. -/
theorem problem?_string (format : StringFormat) : format.problem? (string format) = none := by
  cases format with
  | any => rfl
  | uri => rw [StringFormat.problem?, Uri.check_sample]
  | dateTime => decide +kernel

/-- The calls that a call for a sample makes. -/
inductive Asks (arena : Arena) : List NodeId × NodeId → List NodeId × NodeId → Prop
  | entity {onTheWay : List NodeId} {id : NodeId} {key : String} {target : NodeId} :
      arena.node id = .entity key target → id ∉ onTheWay →
        Asks arena (onTheWay, id) (id :: onTheWay, target)
  | part {onTheWay : List NodeId} {id other : NodeId} :
      (∀ key target, arena.node id ≠ .entity key target) → other ∈ (arena.node id).sampled →
        Asks arena (onTheWay, id) (onTheWay, other)

theorem Asks.calls {call next : List NodeId × NodeId} (h : Asks arena call next) :
    Calls arena call next := by
  cases h with
  | entity hnode hnew => exact .entity hnode hnew
  | part hother hmem => exact .child hother (Node.sampled_subset _ hmem)

theorem Asks.mem_sampled {call next : List NodeId × NodeId} (h : Asks arena call next) :
    next.2 ∈ (arena.node call.2).sampled := by
  cases h with
  | entity hnode =>
      rw [hnode]
      exact List.mem_singleton_self _
  | part _ hmem => exact hmem

/-- Nothing but these calls is asked for. -/
theorem along_asks : Chain.Along (Asks arena) (turn arena) := by
  rintro f g ⟨onTheWay, id⟩ h
  rw [turn, turn, visit, visit]
  have hpart : (∀ key target, arena.node id ≠ .entity key target) →
      ∀ other ∈ (arena.node id).sampled, f (onTheWay, other) = g (onTheWay, other) :=
    fun hentity other hother => h _ (.part hentity hother)
  cases hnode : arena.node id with
  | object fields policy =>
      rw [hnode] at hpart
      have hmembers : ∀ field ∈ fields.filter (·.required),
          (field.name, f (onTheWay, field.node)) = (field.name, g (onTheWay, field.node)) :=
        fun field hfield => by rw [hpart (by simp) _ (List.mem_map_of_mem hfield)]
      dsimp only
      rw [List.map_congr_left hmembers]
  | union variants =>
      rw [hnode] at hpart
      cases variants with
      | nil => rfl
      | cons variant variants => exact hpart (by simp) _ List.mem_cons_self
  | intersection left right =>
      rw [hnode] at hpart
      dsimp only
      rw [hpart (by simp) left List.mem_cons_self,
        hpart (by simp) right (List.mem_cons_of_mem _ List.mem_cons_self)]
  | entity key target =>
      by_cases hmem : id ∈ onTheWay
      · simp [hmem]
      · simpa [hmem] using h _ (.entity hnode hmem)
  | _ => rfl

/-- The call for the sample of a root leads to this one. -/
def Comes (arena : Arena) (root : NodeId) (onTheWay : List NodeId) (id : NodeId) : Prop :=
  ReflTransGen (Asks arena) ([], root) (onTheWay, id)

theorem Comes.reaches (h : Comes arena root onTheWay id) : arena.Reaches root id := by
  have hreaches : ∀ call, ReflTransGen (Asks arena) ([], root) call →
      arena.Reaches root call.2 := by
    intro call hcall
    induction hcall with
    | refl => exact .refl arena root
    | tail _ hasks ih => exact ih.tail (Node.sampled_subset _ hasks.mem_sampled)
  exact hreaches _ h

end Sample

namespace Arena

variable {arena : Arena} {root id other : NodeId} {onTheWay : List NodeId}

/-- The sample of the second node goes into that of the first one. -/
def Samples (arena : Arena) (id other : NodeId) : Prop := other ∈ (arena.node id).sampled

/-- The sample of the root is made without coming to an entity that is on the way. -/
def NeverReenters (arena : Arena) (root : NodeId) : Prop :=
  ∀ onTheWay id, Sample.Comes arena root onTheWay id → id ∉ onTheWay

/-- Samples that go into others are asked for, below what is on the way. -/
theorem NeverReenters.exists_comes (h : arena.NeverReenters root)
    (hcomes : Sample.Comes arena root onTheWay id)
    (hsamples : ReflTransGen arena.Samples id other) :
    ∃ further, Sample.Comes arena root further other ∧ onTheWay ⊆ further := by
  induction hsamples with
  | refl => exact ⟨onTheWay, hcomes, List.Subset.refl _⟩
  | @tail id other _ hmem ih =>
      obtain ⟨further, hcomes, hsubset⟩ := ih
      by_cases hentity : ∃ key target, arena.node id = .entity key target
      · obtain ⟨key, target, hnode⟩ := hentity
        have hother : other = target := by
          rw [Samples, hnode] at hmem
          exact List.mem_singleton.mp hmem
        exact ⟨id :: further, hcomes.tail (hother ▸ .entity hnode (h _ _ hcomes)),
          List.subset_cons_of_subset id hsubset⟩
      · exact ⟨further,
          hcomes.tail (.part (fun key target hnode => hentity ⟨key, target, hnode⟩) hmem), hsubset⟩

/-- What is on the way are entities whose samples the one that is asked for goes into. -/
theorem samples_of_comes (h : Sample.Comes arena root onTheWay id) :
    ReflTransGen arena.Samples root id ∧
      ∀ entity ∈ onTheWay, (∃ key target, arena.node entity = .entity key target) ∧
        ReflTransGen arena.Samples root entity ∧ TransGen arena.Samples entity id := by
  have hcalls : ∀ call, ReflTransGen (Sample.Asks arena) ([], root) call →
      ReflTransGen arena.Samples root call.2 ∧
        ∀ entity ∈ call.1, (∃ key target, arena.node entity = .entity key target) ∧
          ReflTransGen arena.Samples root entity ∧ TransGen arena.Samples entity call.2 := by
    intro call hcall
    induction hcall with
    | refl => exact ⟨.refl, fun _ hmem => absurd hmem List.not_mem_nil⟩
    | tail _ hasks ih =>
        obtain ⟨hroot, hway⟩ := ih
        have hsamples := hasks.mem_sampled
        refine ⟨hroot.tail hsamples, fun entity hmem => ?_⟩
        cases hasks with
        | entity hnode =>
            rcases List.mem_cons.mp hmem with rfl | hmem
            · exact ⟨⟨_, _, hnode⟩, hroot, .single hsamples⟩
            · obtain ⟨hentity, hreached, hbelow⟩ := hway entity hmem
              exact ⟨hentity, hreached, hbelow.tail hsamples⟩
        | part =>
            obtain ⟨hentity, hreached, hbelow⟩ := hway entity hmem
            exact ⟨hentity, hreached, hbelow.tail hsamples⟩
  exact hcalls _ h

/-- No entity is on the way to itself, through required fields and first variants. -/
theorem neverReenters_iff :
    arena.NeverReenters root ↔ ∀ id key target, arena.node id = .entity key target →
      ReflTransGen arena.Samples root id → ¬TransGen arena.Samples id id := by
  constructor
  · intro h id key target hnode hroot hcycle
    obtain ⟨onTheWay, hcomes, -⟩ := h.exists_comes .refl hroot
    obtain ⟨other, hother, hback⟩ := TransGen.head'_iff.mp hcycle
    have hnew := h _ _ hcomes
    have hentity : ReflTransGen arena.Samples target id := by
      rw [Samples, hnode] at hother
      exact List.mem_singleton.mp hother ▸ hback
    obtain ⟨further, hagain, hsubset⟩ := h.exists_comes (hcomes.tail (.entity hnode hnew)) hentity
    exact h _ _ hagain (hsubset List.mem_cons_self)
  · intro h onTheWay id hcomes hmem
    obtain ⟨-, hway⟩ := samples_of_comes hcomes
    obtain ⟨⟨key, target, hnode⟩, hroot, hcycle⟩ := hway id hmem
    exact h id key target hnode hroot hcycle

/-- Numbers that fall to the nodes whose samples are used leave no way back. -/
theorem neverReenters_of_falling (rank : NodeId → Nat)
    (h : ∀ id < arena.size, ∀ other ∈ (arena.node id).sampled, rank other < rank id) :
    arena.NeverReenters root := by
  have hfalls : ∀ id other, arena.Samples id other → rank other < rank id := by
    intro id other hsamples
    by_cases hid : id < arena.size
    · exact h id hid other hsamples
    · rw [Samples, node_eq_pending_of_size_le (Nat.le_of_not_lt hid)] at hsamples
      exact absurd hsamples List.not_mem_nil
  refine neverReenters_iff.mpr fun id _ _ _ _ hcycle => ?_
  have hbelow : ∀ other, TransGen arena.Samples id other → rank other < rank id := by
    intro other hother
    induction hother with
    | single hother => exact hfalls _ _ hother
    | tail _ hother ih => exact Nat.lt_trans (hfalls _ _ hother) ih
  exact Nat.lt_irrefl _ (hbelow id hcycle)

/-- The value is a sample of the node, as the forms of the nodes say. -/
inductive Sampled (arena : Arena) : NodeId → Json → Prop
  | unknown {id : NodeId} : arena.node id = .unknown → Sampled arena id .null
  | string {id : NodeId} {format : StringFormat} :
      arena.node id = .string format → Sampled arena id (.str (Sample.string format))
  | integer {id : NodeId} : arena.node id = .integer → Sampled arena id (Json.int 0)
  | number {id : NodeId} : arena.node id = .number → Sampled arena id (Json.int 0)
  | boolean {id : NodeId} : arena.node id = .boolean → Sampled arena id (.bool false)
  | literal {id : NodeId} {value : Json} :
      arena.node id = .literal value → value.Proper → Sampled arena id value
  | enum {id : NodeId} {option : String} {options : List String} :
      arena.node id = .enum (option :: options) → Sampled arena id (.str option)
  | array {id item : NodeId} : arena.node id = .array item → Sampled arena id (.arr [])
  | record {id item : NodeId} : arena.node id = .record item → Sampled arena id (.obj [])
  | object {id : NodeId} {fields : List FieldNode} {policy : UnknownFields}
      {sample : FieldNode → Json} : arena.node id = .object fields policy →
        (fields.map (·.name)).Nodup →
        (∀ field ∈ fields, field.required = true → Sampled arena field.node (sample field)) →
          Sampled arena id (.obj ((fields.filter (·.required)).map fun field =>
            (field.name, sample field)))
  | union {id : NodeId} {variant : Variant} {variants : List Variant} {value : Json} :
      arena.node id = .union (variant :: variants) → Sampled arena variant.node value →
        Sampled arena id value
  | entity {id : NodeId} {key : String} {target : NodeId} {value : Json} :
      arena.node id = .entity key target → Sampled arena target value → Sampled arena id value

variable (hroot : ∀ {id}, arena.Reaches root id → (arena.node id).WellFormed)
  (hintersection : ∀ {id left right : NodeId}, arena.Reaches root id →
    arena.node id ≠ .intersection left right)
  (hreenters : arena.NeverReenters root)

include hroot hintersection hreenters

/-- What is generated is a sample, as long as there are enough calls and none comes to an entity
that is on the way. By induction on the number of calls. -/
theorem sampled_generate {calls : Nat} {onTheWay : List NodeId} {id : NodeId}
    (hbounded : Chain.Bounded (Sample.Calls arena) calls (onTheWay, id))
    (hcomes : Sample.Comes arena root onTheWay id) :
    arena.Sampled id (Sample.generate arena calls onTheWay id) := by
  induction calls generalizing onTheWay id with
  | zero => exact hbounded.elim
  | succ calls ih =>
      have hasks : ∀ further other, Sample.Asks arena (onTheWay, id) (further, other) →
          arena.Sampled other (Sample.generate arena calls further other) :=
        fun further other hasks => ih (hbounded _ hasks.calls) (hcomes.tail hasks)
      have hpart : (∀ key target, arena.node id ≠ .entity key target) →
          ∀ other ∈ (arena.node id).sampled,
            arena.Sampled other (Sample.generate arena calls onTheWay other) :=
        fun hentity other hother => hasks _ _ (.part hentity hother)
      have hwell := hroot hcomes.reaches
      rw [Sample.generate, Sample.visit]
      cases hnode : arena.node id with
      | pending =>
          rw [hnode] at hwell
          exact hwell.elim
      | unknown => exact .unknown hnode
      | string format => exact .string hnode
      | integer => exact .integer hnode
      | number => exact .number hnode
      | boolean => exact .boolean hnode
      | literal value =>
          rw [hnode] at hwell
          exact .literal hnode hwell
      | enum options =>
          rw [hnode] at hwell
          obtain ⟨option, options, rfl⟩ := List.exists_cons_of_ne_nil hwell
          exact .enum hnode
      | array item => exact .array hnode
      | record item => exact .record hnode
      | object fields policy =>
          rw [hnode] at hwell hpart
          have hnames : (((fields.filter (·.required)).map fun field =>
              (field.name, Sample.generate arena calls onTheWay field.node)).map (·.1)).Nodup := by
            rw [List.map_map]
            exact hwell.sublist (List.filter_sublist.map _)
          dsimp only
          rw [Members.ofWritten_of_nodup hnames]
          refine .object hnode hwell fun field hfield hrequired => ?_
          exact hpart (by simp) _ (List.mem_map_of_mem (List.mem_filter.mpr ⟨hfield, hrequired⟩))
      | union variants =>
          rw [hnode] at hwell hpart
          obtain ⟨variant, variants, rfl⟩ := List.exists_cons_of_ne_nil hwell
          exact .union hnode (hpart (by simp) _ (List.mem_singleton_self _))
      | intersection left right => exact absurd hnode (hintersection hcomes.reaches)
      | entity key target =>
          have hnew := hreenters _ _ hcomes
          dsimp only
          rw [if_neg (List.contains_iff_mem.not.mpr hnew)]
          exact .entity hnode (hasks _ _ (.entity hnode hnew))

theorem sampled_minimal (hwell : arena.WellFormed) (hlt : root < arena.size) :
    arena.Sampled root (Sample.minimal arena root) :=
  sampled_generate hroot hintersection hreenters (Sample.bounded_calls_root hwell hlt) .refl

end Arena

end EntityContract
