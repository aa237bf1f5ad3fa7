import JsonSql.Proofs.Merging
import JsonSql.Schema.Reader
import JsonSql.Schema.Validity

set_option autoImplicit false

/-!
# Schemas written and loaded again

The text of a loaded schema loads as the schema with the numbers in its default values read again
(`Schema.load_toJson`), which fits together as the schema does.
-/

namespace JsonSql

/-! ## Numbers read again -/

/-- The field with the numbers in its default value read again. -/
def Field.reread (f : Field) : Field := { f with defaultValue := f.defaultValue.map Json.reread }

/-- The collection with the numbers in default values read again. -/
def Collection.reread (c : Collection) : Collection :=
  { c with fields := c.fields.map Field.reread }

/-- The schema with the numbers in default values read again. -/
def Schema.reread (s : Schema) : Schema :=
  { s with collections := s.collections.map Collection.reread }

namespace Json

theorem rereadItems_eq_map (items : List Json) : rereadItems items = items.map reread := by
  induction items with
  | nil => rfl
  | cons item items ih => rw [rereadItems, ih, List.map_cons]

theorem reread_array_map {α : Type} (encode encode' : α → Json) (xs : List α)
    (h : ∀ x, (encode x).reread = encode' x) :
    (Json.array (xs.map encode)).reread = .array (xs.map encode') := by
  rw [reread, rereadItems_eq_map, List.map_map]
  exact congrArg Json.array (List.map_congr_left fun x _ => h x)

theorem reread_ofStrings (strings : List String) :
    (ofStrings strings).reread = ofStrings strings :=
  reread_array_map Json.string Json.string strings fun _ => rfl

theorem reread_ofOption (s : Option String) : (ofOption s).reread = ofOption s := by
  cases s <;> rfl

end Json

theorem Field.reread_toJson (f : Field) : f.toJson.reread = f.reread.toJson := by
  have hdefault : (f.defaultValue.getD .null).reread =
      (f.defaultValue.map Json.reread).getD .null := by
    cases f.defaultValue <;> rfl
  simp only [toJson, Json.reread, Json.rereadMembers, Json.reread_ofStrings, hdefault, reread]

theorem Collection.reread_toJson (c : Collection) : c.toJson.reread = c.reread.toJson := by
  have hfields : (Json.array (c.fields.map Field.toJson)).reread =
      .array (c.reread.fields.map Field.toJson) := by
    rw [Collection.reread, List.map_map]
    exact Json.reread_array_map _ _ c.fields Field.reread_toJson
  simp only [toJson, Json.reread, Json.rereadMembers, Json.reread_ofOption]
  rw [← hfields]
  rfl

theorem RelationMeta.reread_toJson (m : RelationMeta) : m.toJson.reread = m.toJson := by
  simp only [toJson, Json.reread, Json.rereadMembers, Json.reread_ofStrings, Json.reread_ofOption]

theorem Relation.reread_toJson (r : Relation) : r.toJson.reread = r.toJson := by
  simp only [toJson, Json.reread, Json.rereadMembers, Json.reread_ofOption,
    RelationMeta.reread_toJson]

theorem Schema.reread_toJson (s : Schema) : s.toJson.reread = s.reread.toJson := by
  have hcollections : (Json.array (s.collections.map Collection.toJson)).reread =
      .array (s.reread.collections.map Collection.toJson) := by
    rw [Schema.reread, List.map_map]
    exact Json.reread_array_map _ _ s.collections Collection.reread_toJson
  have hrelations := Json.reread_array_map _ _ s.relations Relation.reread_toJson
  rw [toJson, Json.reread, Json.rereadMembers, Json.rereadMembers, Json.rereadMembers,
    hcollections, hrelations]
  rfl

/-! ## What is written can be read -/

namespace Json

theorem kept_ofOption {room : Nat} (s : Option String) : (ofOption s).Kept room := by
  cases s
  · exact .null
  · exact .string

theorem kept_array_map {α : Type} {room : Nat} {encode : α → Json} {xs : List α}
    (h : ∀ x ∈ xs, (encode x).Kept room) : (Json.array (xs.map encode)).Kept (room + 1) :=
  .array (List.forall_mem_map.mpr h)

theorem kept_ofStrings {room : Nat} (strings : List String) :
    (ofStrings strings).Kept (room + 1) :=
  kept_array_map fun _ _ => .string

theorem kept_object {room : Nat} {members : List (String × Json)}
    (h : ∀ member ∈ members, Json.Kept room member.2) : (Json.object members).Kept (room + 1) :=
  .object fun key value hmember => h (key, value) hmember

/-- A reader that looks at the whole of a value sees all of it. -/
theorem seen_whole (v : Json) : v.Seen .whole := by
  cases v with
  | null => exact .null
  | bool _ => exact .bool
  | number _ => exact .number
  | string _ => exact .string
  | array items =>
    refine .array fun item hitem _ => ?_
    have hsmaller := List.sizeOf_lt_of_mem hitem
    exact seen_whole item
  | object members =>
    refine .object (fun _ _ _ => rfl) fun key value hmember part hpart => ?_
    have hsmaller := List.sizeOf_lt_of_mem hmember
    have hvalue_smaller : sizeOf value < 1 + sizeOf members := by
      rw [Prod.mk.sizeOf_spec] at hsmaller
      omega
    cases hpart
    exact seen_whole value

theorem seen_array_map {α : Type} {shape : Shape} {encode : α → Json} {xs : List α}
    (h : ∀ x, (encode x).Seen shape) : (Json.array (xs.map encode)).Seen (.list shape) :=
  .array (List.forall_mem_map.mpr fun x _ _ => h x)

theorem seen_object {shape : Shape} {members : List (String × Json)}
    (h : ∀ member ∈ members, ∃ part, shape.member? member.1 = some part ∧ Json.Seen part member.2) :
    (Json.object members).Seen shape := by
  refine .object (fun key value hmember => ?_) fun key value hmember part hpart => ?_
  · obtain ⟨part, hpart, -⟩ := h (key, value) hmember
    exact Option.isSome_of_eq_some hpart
  · obtain ⟨part', hpart', hseen⟩ := h (key, value) hmember
    rw [hpart] at hpart'
    obtain rfl := Option.some.inj hpart'
    exact hseen

/-- A reader that looks at the whole of each known member sees all of a record of them. -/
theorem seen_ofNames {names : List String} {members : List (String × Json)}
    (h : ∀ member ∈ members, member.1 ∈ names) : (Json.object members).Seen (.ofNames names) := by
  have hwhole {name : String} (hname : name ∈ names) :
      JsonSql.member? name (names.map fun name => (name, Shape.whole)) = some .whole := by
    clear h
    induction names with
    | nil => cases hname
    | cons first names ih =>
      rw [List.map_cons, JsonSql.member?]
      split
      · rfl
      · next hne => exact ih ((List.mem_cons.mp hname).resolve_left (Ne.symm hne))
  refine seen_object fun member hmember => ⟨.whole, ?_, seen_whole member.2⟩
  rw [Shape.ofNames, Shape.member?, hwhole (h member hmember)]

end Json

/-- The containers that are open around a default value: the schema, its collections, one of them,
its fields, and one of them. -/
def defaultNesting : Nat := 5

/-- A default value that comes from a schema: not null, without repeated keys, and with no more
containers in it than may be opened. -/
structure Json.IsDefault (v : Json) : Prop where
  isNull : v.isNull = false
  merged : v.merged = v
  kept : v.Kept (nestingLimit - defaultNesting)

/-- The default values of a schema come from a schema. -/
def Schema.HasDefaults (s : Schema) : Prop :=
  ∀ c ∈ s.collections, ∀ f ∈ c.fields, ∀ v, f.defaultValue = some v → v.IsDefault

theorem Field.kept_toJson {f : Field} {room : Nat}
    (h : ∀ v, f.defaultValue = some v → v.Kept (room + 1)) : f.toJson.Kept (room + 2) := by
  have hdefault : (f.defaultValue.getD .null).Kept (room + 1) := by
    cases hvalue : f.defaultValue with
    | none => exact .null
    | some v => exact h v hvalue
  refine Json.kept_object ?_
  simp only [List.forall_mem_cons, List.not_mem_nil, false_imp_iff, implies_true, and_true]
  exact ⟨.string, .string, Json.kept_ofStrings f.special, hdefault⟩

theorem Collection.kept_toJson {c : Collection} {room : Nat}
    (h : ∀ f ∈ c.fields, f.toJson.Kept room) : c.toJson.Kept (room + 2) := by
  refine Json.kept_object ?_
  simp only [List.forall_mem_cons, List.not_mem_nil, false_imp_iff, implies_true, and_true]
  exact ⟨.string, .string, Json.kept_ofOption _, Json.kept_array_map h⟩

theorem RelationMeta.kept_toJson (m : RelationMeta) {room : Nat} : m.toJson.Kept (room + 2) := by
  refine Json.kept_object ?_
  simp only [List.forall_mem_cons, List.not_mem_nil, false_imp_iff, implies_true, and_true]
  exact ⟨Json.kept_ofOption _, Json.kept_ofOption _, Json.kept_ofStrings _, Json.kept_ofOption _⟩

theorem Relation.kept_toJson (r : Relation) {room : Nat} : r.toJson.Kept (room + 3) := by
  refine Json.kept_object ?_
  simp only [List.forall_mem_cons, List.not_mem_nil, false_imp_iff, implies_true, and_true]
  exact ⟨.string, .string, Json.kept_ofOption _, r.info.kept_toJson⟩

/-- The text of a schema with default values from a schema has no more containers in it than may be
opened. -/
theorem Schema.HasDefaults.kept_toJson {s : Schema} (h : s.HasDefaults) :
    s.toJson.Kept nestingLimit := by
  refine @Json.kept_object 126 _ ?_
  simp only [List.forall_mem_cons, List.not_mem_nil, false_imp_iff, implies_true, and_true]
  exact ⟨Json.kept_array_map fun c hc => Collection.kept_toJson fun f hf =>
      Field.kept_toJson fun v hv => (h c hc f hf v hv).kept,
    Json.kept_array_map fun r _ => r.kept_toJson⟩

theorem Field.seen_toJson (f : Field) : f.toJson.Seen (.ofNames memberNames) :=
  Json.seen_ofNames (by simp [memberNames])

theorem RelationMeta.seen_toJson (m : RelationMeta) : m.toJson.Seen (.ofNames memberNames) :=
  Json.seen_ofNames (by simp [memberNames])

theorem Collection.seen_toJson (c : Collection) : c.toJson.Seen shape := by
  refine Json.seen_object ?_
  simp only [List.forall_mem_cons, List.not_mem_nil, false_imp_iff, implies_true, and_true]
  exact ⟨⟨_, rfl, .string⟩, ⟨_, rfl, .string⟩, ⟨_, rfl, Json.seen_whole _⟩,
    ⟨_, rfl, Json.seen_array_map Field.seen_toJson⟩⟩

theorem Relation.seen_toJson (r : Relation) : r.toJson.Seen shape := by
  refine Json.seen_object ?_
  simp only [List.forall_mem_cons, List.not_mem_nil, false_imp_iff, implies_true, and_true]
  exact ⟨⟨_, rfl, .string⟩, ⟨_, rfl, .string⟩, ⟨_, rfl, Json.seen_whole _⟩,
    ⟨_, rfl, r.info.seen_toJson⟩⟩

/-- All of what is written is looked at when a schema is loaded. -/
theorem Schema.seen_toJson (s : Schema) : s.toJson.Seen shape := by
  refine Json.seen_object ?_
  simp only [List.forall_mem_cons, List.not_mem_nil, false_imp_iff, implies_true, and_true]
  exact ⟨⟨_, rfl, Json.seen_array_map Collection.seen_toJson⟩,
    ⟨_, rfl, Json.seen_array_map Relation.seen_toJson⟩⟩

/-! ## What is written is read as written -/

theorem Json.list?_map {α : Type} {decode : Json → Option α} {encode : α → Json} {xs : List α}
    (h : ∀ x ∈ xs, decode (encode x) = some x) :
    Json.list? decode (.array (xs.map encode)) = some xs := by
  induction xs with
  | nil => rfl
  | cons x xs ih =>
    obtain ⟨hx, hxs⟩ := List.forall_mem_cons.mp h
    have hrest : (xs.map encode).mapM decode = some xs := ih hxs
    rw [Json.list?, List.map_cons, List.mapM_cons, hx, hrest]
    rfl

theorem Json.list?_ofStrings (strings : List String) :
    Json.list? Json.string? (ofStrings strings) = some strings :=
  Json.list?_map fun _ _ => rfl

theorem Json.optionalString?_ofOption (s : Option String) :
    Json.optionalString? (ofOption s) = some s := by
  cases s <;> rfl

theorem Json.IsDefault.defaultValue? {v : Json} (h : v.IsDefault) :
    v.defaultValue? = some (some v) := by
  have hmerged : v.defaultValue? = some (some v.merged) := by
    cases v with
    | null => exact absurd h.isNull (by decide)
    | _ => rfl
  rw [hmerged, h.merged]

theorem Field.ofJson?_toJson {f : Field} (h : ∀ v, f.defaultValue = some v → v.IsDefault) :
    Field.ofJson? f.toJson = some f := by
  have hdefault : Json.defaultValue? (f.defaultValue.getD .null) = some f.defaultValue := by
    cases hvalue : f.defaultValue with
    | none => rfl
    | some v => exact (h v hvalue).defaultValue?
  obtain ⟨members, hmembers, hname, htype, hspecial, hvalue⟩ : ∃ members,
      recordMembers? memberNames f.toJson = some members ∧
      required? "field" Json.string? members = some f.name ∧
      required? "type" Json.string? members = some f.type.name ∧
      optional? "special" [] (Json.list? Json.string?) members = some f.special ∧
      optional? "default_value" none Json.defaultValue? members = some f.defaultValue :=
    ⟨_, rfl, rfl, rfl, Json.list?_ofStrings f.special, hdefault⟩
  simp only [Field.ofJson?, hmembers, hname, htype, hspecial, hvalue, Option.bind_eq_bind,
    Option.bind_some, FieldType.ofName_name]
  rfl

theorem Collection.ofJson?_toJson {c : Collection}
    (h : ∀ f ∈ c.fields, ∀ v, f.defaultValue = some v → v.IsDefault) :
    Collection.ofJson? c.toJson = some c := by
  obtain ⟨members, hmembers, hname, hprimary, haccountability, hfields⟩ : ∃ members,
      knownMembers? ["fields", "collection", "primary", "accountability"]
        [("collection", .string c.info.name), ("primary", .string c.info.primary),
          ("accountability", .ofOption c.info.accountability),
          ("fields", .array (c.fields.map Field.toJson))] = some members ∧
      required? "collection" Json.string? members = some c.info.name ∧
      required? "primary" Json.string? members = some c.info.primary ∧
      optional? "accountability" none Json.optionalString? members =
        some c.info.accountability ∧
      optional? "fields" [] (Json.list? Field.ofJson?) members = some c.fields :=
    ⟨_, rfl, rfl, rfl, Json.optionalString?_ofOption _,
      Json.list?_map fun f hf => Field.ofJson?_toJson (h f hf)⟩
  simp only [toJson, Collection.ofJson?, hmembers, hname, hprimary, haccountability, hfields,
    Option.bind_eq_bind, Option.bind_some]
  rfl

theorem RelationMeta.ofJson?_toJson (m : RelationMeta) :
    RelationMeta.ofJson? m.toJson = some m := by
  obtain ⟨members, hmembers, hone, hdiscriminator, hallowed, hjunction⟩ : ∃ members,
      recordMembers? memberNames m.toJson = some members ∧
      optional? "one_field" none Json.optionalString? members = some m.oneField ∧
      optional? "one_collection_field" none Json.optionalString? members =
        some m.discriminator ∧
      optional? "one_allowed_collections" [] (Json.list? Json.string?) members =
        some m.allowed ∧
      optional? "junction_field" none Json.optionalString? members = some m.junctionField :=
    ⟨_, rfl, Json.optionalString?_ofOption _, Json.optionalString?_ofOption _,
      Json.list?_ofStrings _, Json.optionalString?_ofOption _⟩
  simp only [RelationMeta.ofJson?, hmembers, hone, hdiscriminator, hallowed, hjunction,
    Option.bind_eq_bind, Option.bind_some]
  rfl

theorem Relation.ofJson?_toJson (r : Relation) : Relation.ofJson? r.toJson = some r := by
  obtain ⟨members, hmembers, hcollection, hfield, hrelated, hinfo⟩ : ∃ members,
      recordMembers? ["collection", "field", "related_collection", "meta"] r.toJson =
        some members ∧
      required? "collection" Json.string? members = some r.collection ∧
      required? "field" Json.string? members = some r.field ∧
      optional? "related_collection" none Json.optionalString? members = some r.related ∧
      optional? "meta" {} RelationMeta.ofJson? members = some r.info :=
    ⟨_, rfl, rfl, rfl, Json.optionalString?_ofOption _, r.info.ofJson?_toJson⟩
  simp only [Relation.ofJson?, hmembers, hcollection, hfield, hrelated, hinfo,
    Option.bind_eq_bind, Option.bind_some]
  rfl

/-- What is written of a schema with default values from a schema is read as the schema. -/
theorem Schema.HasDefaults.ofJson?_toJson {s : Schema} (h : s.HasDefaults) :
    Schema.ofJson? s.toJson = some s := by
  obtain ⟨members, hmembers, hcollections, hrelations⟩ : ∃ members,
      recordMembers? ["collections", "relations"] s.toJson = some members ∧
      optional? "collections" [] (Json.list? Collection.ofJson?) members = some s.collections ∧
      optional? "relations" [] (Json.list? Relation.ofJson?) members = some s.relations :=
    ⟨_, rfl, Json.list?_map fun c hc => Collection.ofJson?_toJson (h c hc),
      Json.list?_map fun r _ => r.ofJson?_toJson⟩
  simp only [Schema.ofJson?, hmembers, hcollections, hrelations, Option.bind_eq_bind,
    Option.bind_some]
  rfl

/-! ## What is read comes from a schema -/

/-- A member that is there is decoded. -/
theorem exists_of_optional? {α : Type} {name : String} {absent x : α} {decode : Json → Option α}
    {members : Members} (h : optional? name absent decode members = some x) (hx : x ≠ absent) :
    ∃ value, (name, value) ∈ members ∧ decode value = some x := by
  unfold optional? at h
  split at h
  · exact absurd (Option.some.inj h).symm hx
  · next value hvalue => exact ⟨value, member?_mem hvalue, h⟩

theorem mem_of_knownMembers? {names : List String} {members known : Members}
    (h : knownMembers? names members = some known) {member : String × Json}
    (hmember : member ∈ known) : member ∈ members := by
  rw [knownMembers?] at h
  obtain ⟨-, hknown⟩ := Option.ite_none_left_eq_some.mp h
  rw [← Option.some.inj hknown] at hmember
  exact List.mem_of_mem_filter hmember

namespace Json

theorem Kept.of_recordMembers? {names : List String} {json : Json} {members : Members}
    {room : Nat} (hkept : json.Kept (room + 1)) (h : recordMembers? names json = some members)
    {key : String} {value : Json} (hmember : (key, value) ∈ members) : value.Kept room := by
  cases hkept with
  | null | bool | number | string => cases h
  | array hitems =>
    rw [recordMembers?] at h
    obtain ⟨-, hzip⟩ := Option.ite_none_right_eq_some.mp h
    rw [← Option.some.inj hzip] at hmember
    exact hitems value (List.of_mem_zip hmember).2
  | object hvalues => exact hvalues key value (mem_of_knownMembers? h hmember)

theorem Kept.of_list? {α : Type} {decode : Json → Option α} {json : Json} {xs : List α}
    {room : Nat} (hkept : json.Kept (room + 1)) (h : list? decode json = some xs) {x : α}
    (hx : x ∈ xs) : ∃ item, item.Kept room ∧ decode item = some x := by
  cases hkept with
  | null | bool | number | string | object => cases h
  | @array _ items hitems =>
    rw [list?] at h
    induction items generalizing xs with
    | nil =>
      rw [List.mapM_nil] at h
      cases h
      cases hx
    | cons item items ih =>
      obtain ⟨hitem, hitems⟩ := List.forall_mem_cons.mp hitems
      simp only [List.mapM_cons, Option.bind_eq_bind, Option.bind_eq_some_iff, Option.pure_def,
        Option.some.injEq] at h
      obtain ⟨first, hfirst, rest, hrest, rfl⟩ := h
      rcases List.mem_cons.mp hx with rfl | hx
      · exact ⟨item, hitem, hfirst⟩
      · exact ih hx hitems hrest

/-- A value that is taken for a default value comes from a schema. -/
theorem IsDefault.of_defaultValue? {json v : Json}
    (hkept : json.Kept (nestingLimit - defaultNesting)) (h : json.defaultValue? = some (some v)) :
    v.IsDefault := by
  have hnull : json.isNull = false := by
    cases json <;> first | rfl | cases h
  have hmerged : json.defaultValue? = some (some json.merged) := by
    cases json with
    | null => exact absurd hnull (by decide)
    | _ => rfl
  rw [hmerged] at h
  obtain rfl : json.merged = v := Option.some.inj (Option.some.inj h)
  refine ⟨?_, json.merged_merged, hkept.merged⟩
  cases json <;> first | rfl | cases hnull

end Json

theorem Field.isDefault_of_ofJson? {json : Json} {f : Field}
    (hkept : json.Kept (nestingLimit - defaultNesting + 1)) (h : Field.ofJson? json = some f)
    (v : Json) (hv : f.defaultValue = some v) : v.IsDefault := by
  simp only [Field.ofJson?, Option.bind_eq_bind, Option.bind_eq_some_iff, Option.pure_def,
    Option.some.injEq] at h
  obtain ⟨members, hmembers, name, -, type, -, special, -, value, hvalue, rfl⟩ := h
  obtain rfl : value = some v := hv
  obtain ⟨json, hmember, hdecode⟩ := exists_of_optional? hvalue (Option.some_ne_none v)
  exact .of_defaultValue? (hkept.of_recordMembers? hmembers hmember) hdecode

theorem Collection.isDefault_of_ofJson? {json : Json} {c : Collection}
    (hkept : json.Kept (nestingLimit - defaultNesting + 3)) (h : Collection.ofJson? json = some c)
    (f : Field) (hf : f ∈ c.fields) (v : Json) (hv : f.defaultValue = some v) : v.IsDefault := by
  cases hkept with
  | null | bool | number | string | array => cases h
  | object hvalues =>
    simp only [Collection.ofJson?, Option.bind_eq_bind, Option.bind_eq_some_iff, Option.pure_def,
      Option.some.injEq] at h
    obtain ⟨members, hmembers, name, -, primary, -, accountability, -, fields, hfields, rfl⟩ := h
    obtain ⟨json, hmember, hdecode⟩ := exists_of_optional? hfields (List.ne_nil_of_mem hf)
    have hjson := hvalues _ _ (mem_of_knownMembers? hmembers hmember)
    obtain ⟨item, hitem, hitemField⟩ := Json.Kept.of_list? hjson hdecode hf
    exact Field.isDefault_of_ofJson? hitem hitemField v hv

/-- The default values of a schema that is read come from a schema. -/
theorem Schema.hasDefaults_of_ofJson? {json : Json} {s : Schema} (hkept : json.Kept nestingLimit)
    (h : Schema.ofJson? json = some s) : s.HasDefaults := by
  simp only [Schema.ofJson?, Option.bind_eq_bind, Option.bind_eq_some_iff, Option.pure_def,
    Option.some.injEq] at h
  obtain ⟨members, hmembers, collections, hcollections, relations, -, rfl⟩ := h
  intro c hc
  obtain ⟨json', hmember, hdecode⟩ := exists_of_optional? hcollections (List.ne_nil_of_mem hc)
  have hjson : json'.Kept 126 := Json.Kept.of_recordMembers? hkept hmembers hmember
  obtain ⟨item, hitem, hitemCollection⟩ := Json.Kept.of_list? hjson hdecode hc
  exact Collection.isDefault_of_ofJson? hitem hitemCollection

/-! ## What is asked of a schema -/

theorem Json.Kept.reread {room : Nat} {v : Json} (h : v.Kept room) : v.reread.Kept room := by
  induction h with
  | null => exact .null
  | bool => exact .bool
  | @number _ n hn =>
    cases n with
    | int n => exact .number hn
    | float x => exact .number trivial
  | string => exact .string
  | array _ ih =>
    rw [Json.reread, rereadItems_eq_map]
    exact .array (List.forall_mem_map.mpr ih)
  | object _ ih =>
    rw [Json.reread, rereadMembers_eq_map]
    refine .object fun key value hmember => ?_
    obtain ⟨member, hfound, hsame⟩ := List.mem_map.mp hmember
    cases hsame
    exact ih member.1 member.2 hfound

/-- A default value comes from a schema when its numbers are read again. -/
theorem Json.IsDefault.reread {v : Json} (h : v.IsDefault) : v.reread.IsDefault where
  isNull := by
    have hnull := h.isNull
    cases v <;> first | rfl | cases hnull
  merged := by rw [Json.merged_reread, h.merged]
  kept := h.kept.reread

theorem Schema.HasDefaults.reread {s : Schema} (h : s.HasDefaults) : s.reread.HasDefaults := by
  intro c' hc' f' hf' v' hv'
  obtain ⟨c, hc, rfl⟩ := List.mem_map.mp hc'
  obtain ⟨f, hf, rfl⟩ := List.mem_map.mp hf'
  obtain ⟨v, hv, rfl⟩ := Option.map_eq_some_iff.mp hv'
  exact (h c hc f hf v hv).reread

namespace Schema

variable (s : Schema)

theorem field?_reread (c : Collection) (name : String) :
    c.reread.field? name = (c.field? name).map Field.reread := by
  rw [Collection.field?, Collection.reread, List.find?_map]
  rfl

theorem collection?_reread (name : String) :
    s.reread.collection? name = (s.collection? name).map Collection.reread := by
  rw [collection?, reread, List.find?_map]
  rfl

theorem summary_reread : s.reread.summary = s.summary := by
  have hfields : (s.reread.collections.flatMap Collection.fields).length =
      (s.collections.flatMap Collection.fields).length := by
    simp [reread, Collection.reread, List.length_flatMap, List.map_map, Function.comp_def]
  rw [summary, summary, hfields]
  simp [reread]

theorem checkCollections_reread (seen : List String) (collections : List Collection) :
    checkCollections seen (collections.map Collection.reread) =
      checkCollections seen collections := by
  induction collections generalizing seen with
  | nil => rfl
  | cons c collections ih =>
    rw [List.map_cons, checkCollections, checkCollections, field?_reread, Option.isNone_map, ih]
    rfl

theorem checkRelation_reread (r : Relation) : s.reread.checkRelation r = s.checkRelation r := by
  have htargets (target : String) : (s.reread.collection? target).isNone =
      (s.collection? target).isNone := by
    rw [collection?_reread, Option.isNone_map]
  simp only [checkRelation, htargets]
  rw [collection?_reread]
  cases s.collection? r.collection with
  | none => rfl
  | some c =>
    show (if (c.reread.field? r.field).isNone then _ else _) = _
    rw [field?_reread, Option.isNone_map]

/-- Numbers in default values do not matter for whether a schema fits together. -/
theorem validate_reread : s.reread.validate = s.validate := by
  have hrelations : s.reread.checkRelation = s.checkRelation := funext s.checkRelation_reread
  rw [validate, validate, hrelations, summary_reread]
  rw [reread, checkCollections_reread]

/-- A schema that is loaded has default values that come from a schema, and fits together. -/
theorem hasDefaults_of_load {text : String} {s : Schema} (h : load text = .ok s) :
    s.HasDefaults ∧ ∃ summary, s.validate = .ok summary := by
  unfold load parse at h
  cases hjson : Json.parseAs? shape text with
  | none =>
    rw [hjson] at h
    cases h
  | some json =>
    rw [hjson, Option.bind_some] at h
    cases hread : ofJson? json with
    | none =>
      rw [hread] at h
      cases h
    | some found =>
      rw [hread] at h
      cases hvalid : found.validate with
      | error e =>
        have hfails : (do let _ ← found.validate; return found) = Except.ok s := h
        rw [hvalid] at hfails
        cases hfails
      | ok summary =>
        have hloads : (do let _ ← found.validate; return found) = Except.ok s := h
        rw [hvalid] at hloads
        cases hloads
        exact ⟨hasDefaults_of_ofJson? (Json.kept_of_parseAs? hjson) hread, summary, hvalid⟩

/-- The text of a loaded schema loads as the schema with its numbers read again. -/
theorem load_toJson {text : String} {s : Schema} (h : load text = .ok s) :
    load s.toJson.text = .ok s.reread := by
  obtain ⟨hdefaults, summary, hvalid⟩ := hasDefaults_of_load h
  have hparse : parse s.toJson.text = .ok s.reread := by
    rw [parse, Json.parseAs?_text hdefaults.kept_toJson s.seen_toJson, reread_toJson,
      Option.bind_some, hdefaults.reread.ofJson?_toJson]
  rw [load, hparse]
  show (do let _ ← s.reread.validate; return s.reread) = _
  rw [validate_reread, hvalid]
  rfl

end Schema

end JsonSql
