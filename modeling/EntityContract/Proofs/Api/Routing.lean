import Mathlib.Data.List.Basic
import Mathlib.Data.List.Nodup
import Mathlib.Data.List.TakeWhile
import EntityContract.Api.Endpoint
import EntityContract.Proofs.Text.Splitting

/-!
Routing requests. A path belongs to an operation if it is the template of the operation with values
in place of the placeholders. It belongs to one operation at most, so the order of the table is of
no account; and a path that is put together so is taken apart again. Main statement: `find?_routes`.
-/

namespace EntityContract

namespace Template

variable {template : Template} {segments : List (List Char)} {params : List (String × String)}
  {values : List String} {path : String}

/-- The names of the placeholders, in order. -/
def placeholders (template : Template) : List String :=
  template.filterMap fun
    | .fixed _ => none
    | .placeholder name => some name

/-- The template with values in place of its placeholders, in order, as far as there are values. -/
def fill : Template → List String → Template
  | .fixed text :: template, values => .fixed text :: fill template values
  | .placeholder _ :: template, value :: values => .fixed value :: fill template values
  | template, _ => template

/-- The path is the template with the values in place of its placeholders. -/
structure Fills (template : Template) (params : List (String × String)) (path : String) : Prop where
  names : params.map (·.1) = template.placeholders
  values : ∀ param ∈ params, param.2 ≠ "" ∧ '/' ∉ param.2.toList
  path_eq : path = (template.fill (params.map (·.2))).text

/-- No fixed segment holds a slash. -/
def Plain (template : Template) : Prop := ∀ text, .fixed text ∈ template → '/' ∉ text.toList

/-- What stands for a segment in the text of a template. -/
def token : TemplateSegment → List Char
  | .fixed text => text.toList
  | .placeholder name => ':' :: name.toList

theorem toList_text (template : Template) :
    template.text.toList = (template.map token).flatMap ('/' :: ·) := by
  rw [text, write]
  induction template with
  | nil => rfl
  | cons part template ih =>
      rw [List.map_cons, String.join_cons, String.toList_append, ih, List.map_cons,
        List.flatMap_cons]
      cases part with
      | fixed text => rw [String.toList_append]; rfl
      | placeholder name => rw [String.toList_append, String.toList_append]; rfl

@[simp] theorem length_fill (template : Template) (values : List String) :
    (template.fill values).length = template.length := by
  induction template generalizing values with
  | nil => rfl
  | cons part template ih =>
      cases part with
      | fixed text => rw [fill, List.length_cons, ih, List.length_cons]
      | placeholder name =>
          cases values with
          | nil => rfl
          | cons value values => rw [fill, List.length_cons, ih, List.length_cons]

/-- With a value for each placeholder, what is filled in is a fixed segment of the template or a
value. -/
theorem mem_fill_iff (h : values.length = template.placeholders.length) {part : TemplateSegment} :
    part ∈ template.fill values ↔
      ∃ text, part = .fixed text ∧ (.fixed text ∈ template ∨ text ∈ values) := by
  induction template generalizing values with
  | nil =>
      cases List.length_eq_zero_iff.mp h
      simp [fill]
  | cons first template ih =>
      cases first with
      | fixed text =>
          rw [fill, List.mem_cons, ih h]
          grind
      | placeholder name =>
          cases values with
          | nil => exact nomatch h
          | cons value values =>
              rw [fill, List.mem_cons, ih (Nat.succ.inj h)]
              grind

/-- Segments fit exactly if they are those of the template with the values. -/
theorem matchSegments_eq_some_iff :
    matchSegments template segments = some params ↔
      params.map (·.1) = template.placeholders ∧ (∀ param ∈ params, param.2 ≠ "") ∧
        segments = (template.fill (params.map (·.2))).map token := by
  induction template generalizing segments params with
  | nil =>
      cases segments with
      | nil => cases params <;> simp [matchSegments, placeholders, fill]
      | cons segment segments => simp [matchSegments, placeholders, fill]
  | cons first template ih =>
      cases first with
      | fixed text =>
          have hplaceholders : placeholders (.fixed text :: template) = placeholders template := rfl
          cases segments with
          | nil => simp [matchSegments, fill]
          | cons segment segments =>
              rw [matchSegments, hplaceholders, fill, List.map_cons, List.cons.injEq, token]
              split
              · rename_i hsegment
                rw [ih]
                simp [hsegment]
              · rename_i hsegment
                simp [hsegment]
      | placeholder name =>
          have hplaceholders : placeholders (.placeholder name :: template) =
            name :: placeholders template := rfl
          cases segments with
          | nil => cases params <;> simp [matchSegments, fill, hplaceholders]
          | cons segment segments =>
              rw [matchSegments, hplaceholders]
              constructor
              · intro h
                split at h
                · exact nomatch h
                · rename_i hsegment
                  obtain ⟨rest, hrest, rfl⟩ := Option.map_eq_some_iff.mp h
                  obtain ⟨hnames, hvalues, rfl⟩ := ih.mp hrest
                  refine ⟨by rw [List.map_cons, hnames], List.forall_mem_cons.mpr ⟨?_, hvalues⟩, ?_⟩
                  · exact fun hempty => hsegment (by simpa using hempty)
                  · rw [List.map_cons, fill, List.map_cons, token, String.toList_ofList]
              · rintro ⟨hnames, hvalues, hsegments⟩
                cases params with
                | nil => exact nomatch hnames
                | cons param rest =>
                    obtain ⟨key, value⟩ := param
                    rw [List.map_cons, List.cons.injEq] at hnames
                    rw [List.forall_mem_cons] at hvalues
                    rw [List.map_cons, fill, List.map_cons, List.cons.injEq, token] at hsegments
                    obtain ⟨rfl, hrest⟩ := hsegments
                    rw [if_neg (by simpa using hvalues.1), ih.mpr ⟨hnames.2, hvalues.2, hrest⟩,
                      Option.map_some, String.ofList_toList, ← hnames.1]

/-- Matching a path undoes filling the template. -/
theorem matchPath_eq_some_iff (hplain : template.Plain) :
    template.matchPath path = some params ↔ template.Fills params path := by
  have hmem : params.map (·.1) = template.placeholders → ∀ {part},
      part ∈ template.fill (params.map (·.2)) ↔
        ∃ text, part = .fixed text ∧ (.fixed text ∈ template ∨ text ∈ params.map (·.2)) :=
    fun hnames => mem_fill_iff (by rw [← hnames, List.length_map, List.length_map])
  obtain ⟨piece, pieces, hsplit, hpath, hpieces⟩ := Text.exists_split '/' path.toList
  constructor
  · intro h
    rw [matchPath, hsplit] at h
    cases piece with
    | cons c piece => exact nomatch h
    | nil =>
        obtain ⟨hnames, hvalues, rfl⟩ := matchSegments_eq_some_iff.mp h
        refine ⟨hnames, fun param hparam => ⟨hvalues param hparam, ?_⟩, ?_⟩
        · have hpart := (hmem hnames).mpr ⟨param.2, rfl, Or.inr (List.mem_map_of_mem hparam)⟩
          exact hpieces _ (List.mem_cons_of_mem _ (List.mem_map_of_mem hpart))
        · rw [← String.toList_inj, hpath, toList_text, List.nil_append]
  · rintro ⟨hnames, hvalues, rfl⟩
    have hclean : ∀ cut ∈ [] :: (template.fill (params.map (·.2))).map token, '/' ∉ cut := by
      rw [List.forall_mem_cons, List.forall_mem_map]
      refine ⟨List.not_mem_nil, fun part hpart => ?_⟩
      obtain ⟨text, rfl, hfixed | hvalue⟩ := (hmem hnames).mp hpart
      · exact hplain text hfixed
      · obtain ⟨param, hparam, rfl⟩ := List.mem_map.mp hvalue
        exact (hvalues param hparam).2
    have hcut := Text.split_append_flatMap hclean
    rw [List.nil_append] at hcut
    rw [matchPath, toList_text, hcut]
    exact matchSegments_eq_some_iff.mpr ⟨hnames, fun param hparam => (hvalues param hparam).1, rfl⟩

/-- A path that fits has as many segments as the template. -/
theorem length_split_of_matchPath (h : template.matchPath path = some params) :
    (Text.split '/' path.toList).length = template.length + 1 := by
  rw [matchPath] at h
  split at h
  · rename_i segments hsplit
    obtain ⟨-, -, rfl⟩ := matchSegments_eq_some_iff.mp h
    rw [hsplit, List.length_cons, List.length_map, length_fill]
  · exact nomatch h

end Template

namespace Endpoint

variable {endpoint other : Endpoint}

/-- No segment of a template of the table holds a character that a path is cut at. -/
theorem clean_of_mem_table : ∀ endpoint ∈ table, ∀ part ∈ endpoint.template,
    ∀ c ∈ Template.token part, c ≠ '/' ∧ c ≠ '?' ∧ c ≠ '#' := by
  have hclean : (table.all fun endpoint => endpoint.template.all fun part =>
      (Template.token part).all fun c => c != '/' && (c != '?' && c != '#')) = true := by
    rfl
  simpa only [List.all_eq_true, Bool.and_eq_true, bne_iff_ne] using hclean

theorem plain_of_mem_table (h : endpoint ∈ table) : endpoint.template.Plain :=
  fun _ htext hslash => (clean_of_mem_table _ h _ htext _ hslash).1 rfl

/-- No two operations of one method have templates of the same length. -/
theorem eq_of_length_eq (h : endpoint ∈ table) (hother : other ∈ table)
    (hmethod : endpoint.method = other.method)
    (hlength : endpoint.template.length = other.template.length) : endpoint = other := by
  have hnodup : (table.map fun endpoint => (endpoint.method, endpoint.template.length)).Nodup := by
    decide
  exact List.inj_on_of_nodup_map hnodup h hother (Prod.ext hmethod hlength)

end Endpoint

namespace RequestMatch

variable {method : Method} {path part : String} {found : RequestMatch}

/-- Nothing, a query or a fragment. -/
def IsSuffix (suffix : String) : Prop :=
  suffix = "" ∨ ∃ rest, suffix = "?" ++ rest ∨ suffix = "#" ++ rest

/-- The part of the path is what stands before its query and its fragment. -/
structure Precedes (part path : String) : Prop where
  clean : ∀ c ∈ part.toList, c ≠ '?' ∧ c ≠ '#'
  exists_suffix : ∃ suffix, path = part ++ suffix ∧ IsSuffix suffix

theorem pathOnly_eq_iff : pathOnly path = part ↔ Precedes part path := by
  constructor
  · rintro rfl
    refine ⟨fun c hc => ?_, String.ofList (path.toList.dropWhile fun c => c ≠ '?' ∧ c ≠ '#'), ?_,
      ?_⟩
    · rw [pathOnly, String.toList_ofList] at hc
      simpa using List.mem_takeWhile_imp hc
    · rw [pathOnly, ← String.ofList_append, List.takeWhile_append_dropWhile, String.ofList_toList]
    · have hhead := List.head?_dropWhile_not (fun c => decide (c ≠ '?' ∧ c ≠ '#')) path.toList
      generalize (path.toList.dropWhile fun c => decide (c ≠ '?' ∧ c ≠ '#')) = rest at hhead
      cases rest with
      | nil => exact Or.inl rfl
      | cons c rest =>
          have hc : c = '?' ∨ c = '#' := by
            simpa [or_iff_not_imp_left] using hhead
          rcases hc with rfl | rfl
          · exact Or.inr ⟨String.ofList rest, Or.inl (String.ofList_cons)⟩
          · exact Or.inr ⟨String.ofList rest, Or.inr (String.ofList_cons)⟩
  · rintro ⟨hclean, suffix, rfl, hsuffix⟩
    have hstops : (suffix.toList.takeWhile fun c => c ≠ '?' ∧ c ≠ '#') = [] := by
      rcases hsuffix with rfl | ⟨rest, rfl | rfl⟩
      · rfl
      · rw [String.toList_append]
        rfl
      · rw [String.toList_append]
        rfl
    rw [pathOnly, String.toList_append, List.takeWhile_append_of_pos (by simpa using hclean),
      hstops, List.append_nil, String.ofList_toList]

/-- The operation is one of the method, and the path, up to its query and its fragment, is the
template of the operation with the values in place of the placeholders. -/
structure Routes (method : Method) (path : String) (found : RequestMatch) : Prop where
  mem : found.endpoint ∈ Endpoint.table
  method_eq : found.endpoint.method = method
  fills : ∃ part, Precedes part path ∧ found.endpoint.template.Fills found.params part

/-- Looks for an operation in a table as it is written. -/
def findAmong (endpoints : List Endpoint) (method : Method) (path : String) : Option RequestMatch :=
  (endpoints.filter (·.method == method)).findSome? fun endpoint =>
    (endpoint.template.matchPath (pathOnly path)).map fun params => ⟨endpoint, params⟩

theorem routes_iff : Routes method path found ↔ found.endpoint ∈ Endpoint.table ∧
    found.endpoint.method = method ∧
      found.endpoint.template.matchPath (pathOnly path) = some found.params := by
  constructor
  · rintro ⟨hmem, hmethod, part, hpart, hfills⟩
    rw [pathOnly_eq_iff.mpr hpart,
      Template.matchPath_eq_some_iff (Endpoint.plain_of_mem_table hmem)]
    exact ⟨hmem, hmethod, hfills⟩
  · rintro ⟨hmem, hmethod, hmatch⟩
    exact ⟨hmem, hmethod, _, pathOnly_eq_iff.mp rfl,
      (Template.matchPath_eq_some_iff (Endpoint.plain_of_mem_table hmem)).mp hmatch⟩

/-- The number of segments tells the operation, and the operation tells the values. -/
theorem Routes.unique {other : RequestMatch} (h : Routes method path found)
    (hother : Routes method path other) : found = other := by
  obtain ⟨hmem, hmethod, hmatch⟩ := routes_iff.mp h
  obtain ⟨hmem', hmethod', hmatch'⟩ := routes_iff.mp hother
  have hlength := (Template.length_split_of_matchPath hmatch).symm.trans
    (Template.length_split_of_matchPath hmatch')
  have hendpoint := Endpoint.eq_of_length_eq hmem hmem' (hmethod.trans hmethod'.symm)
    (Nat.succ.inj hlength)
  obtain ⟨endpoint, params⟩ := found
  obtain ⟨endpoint', params'⟩ := other
  cases hendpoint
  rw [hmatch, Option.some.injEq] at hmatch'
  exact congrArg (RequestMatch.mk endpoint) hmatch'

theorem findAmong_eq_some_iff {endpoints : List Endpoint} (h : endpoints.Perm Endpoint.table) :
    findAmong endpoints method path = some found ↔ Routes method path found := by
  have hfound : ∀ {found}, findAmong endpoints method path = some found →
      Routes method path found := by
    intro found hfind
    obtain ⟨endpoint, hendpoint, hmatch⟩ := List.exists_of_findSome?_eq_some hfind
    obtain ⟨params, hparams, rfl⟩ := Option.map_eq_some_iff.mp hmatch
    obtain ⟨hmem, hmethod⟩ := List.mem_filter.mp hendpoint
    exact routes_iff.mpr ⟨h.mem_iff.mp hmem, eq_of_beq hmethod, hparams⟩
  refine ⟨hfound, fun hroutes => ?_⟩
  cases hfind : findAmong endpoints method path with
  | some other => rw [(hfound hfind).unique hroutes]
  | none =>
      obtain ⟨hmem, hmethod, hmatch⟩ := routes_iff.mp hroutes
      have hnone := List.findSome?_eq_none_iff.mp hfind found.endpoint
        (List.mem_filter.mpr ⟨h.mem_iff.mpr hmem, beq_iff_eq.mpr hmethod⟩)
      rw [hmatch] at hnone
      exact nomatch hnone

/-- A path that is put together from the template of an operation leads back to the operation. -/
theorem routes_fill {endpoint : Endpoint} (hmem : endpoint ∈ Endpoint.table) {values : List String}
    (hlength : values.length = endpoint.template.placeholders.length)
    (hvalues : ∀ value ∈ values, value ≠ "" ∧ ∀ c ∈ value.toList, c ≠ '/' ∧ c ≠ '?' ∧ c ≠ '#')
    {suffix : String} (hsuffix : IsSuffix suffix) :
    Routes endpoint.method ((endpoint.template.fill values).text ++ suffix)
      ⟨endpoint, endpoint.template.placeholders.zip values⟩ := by
  have hzip : (endpoint.template.placeholders.zip values).map (·.2) = values :=
    List.map_snd_zip (Nat.le_of_eq hlength)
  refine ⟨hmem, rfl, _, ⟨fun c hc => ?_, suffix, rfl, hsuffix⟩, ?_, fun param hparam => ?_, ?_⟩
  · rw [Template.toList_text, List.mem_flatMap] at hc
    obtain ⟨cut, hcut, hc⟩ := hc
    obtain ⟨part, hpart, rfl⟩ := List.mem_map.mp hcut
    rcases List.mem_cons.mp hc with rfl | hc
    · decide
    · obtain ⟨text, rfl, hfixed | hvalue⟩ := (Template.mem_fill_iff hlength).mp hpart
      · exact (Endpoint.clean_of_mem_table _ hmem _ hfixed _ hc).2
      · exact ((hvalues text hvalue).2 c hc).2
  · exact List.map_fst_zip (Nat.le_of_eq hlength.symm)
  · obtain ⟨hne, hclean⟩ := hvalues param.2 (List.of_mem_zip hparam).2
    exact ⟨hne, fun hslash => (hclean _ hslash).1 rfl⟩
  · rw [hzip]

/-- A request is routed to the operation of its method whose template its path fills, with the
values that fill it. There is one at most, so any order of the table will do, and every path that is
put together from a template and values leads back to them, whatever query or fragment follows. -/
theorem find?_routes :
    (∀ method path, (∀ found, find? method path = some found ↔ Routes method path found) ∧
      (∀ found other, Routes method path found → Routes method path other → found = other) ∧
      ∀ endpoints, endpoints.Perm Endpoint.table →
        findAmong endpoints method path = find? method path) ∧
    ∀ endpoint ∈ Endpoint.table, ∀ values : List String,
      values.length = endpoint.template.placeholders.length →
      (∀ value ∈ values, value ≠ "" ∧ ∀ c ∈ value.toList, c ≠ '/' ∧ c ≠ '?' ∧ c ≠ '#') →
      ∀ suffix, IsSuffix suffix →
        find? endpoint.method ((endpoint.template.fill values).text ++ suffix) =
          some ⟨endpoint, endpoint.template.placeholders.zip values⟩ := by
  have hfind : ∀ {method path found}, find? method path = some found ↔ Routes method path found :=
    findAmong_eq_some_iff (List.Perm.refl _)
  refine ⟨fun method path => ⟨fun _ => hfind, fun _ _ => Routes.unique, fun endpoints hperm => ?_⟩,
    fun endpoint hmem values hlength hvalues suffix hsuffix => ?_⟩
  · exact Option.ext fun found => (findAmong_eq_some_iff hperm).trans hfind.symm
  · exact hfind.mpr (routes_fill hmem hlength hvalues hsuffix)

/-- Values may be what a template says elsewhere, and stay as they are written. -/
theorem find?_routes_version :
    find? .get "/v0/servers/versions/versions/1%2F2?draft#top" =
      some ⟨Endpoint.serverVersion, [("serverName", "versions"), ("version", "1%2F2")]⟩ :=
  find?_routes.2 Endpoint.serverVersion (by simp [Endpoint.table]) ["versions", "1%2F2"] rfl
    (by simp) "?draft#top" (Or.inr ⟨"draft#top", Or.inl rfl⟩)

/-- A slash at the end asks for one more value, and values are not empty. -/
example : find? .get "/v0/servers/" = none := by
  rfl

end RequestMatch

end EntityContract
