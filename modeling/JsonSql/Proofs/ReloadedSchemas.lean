import JsonSql.Proofs.Run
import JsonSql.Proofs.ShortNumbers
import JsonSql.Proofs.WrittenSchemas

set_option autoImplicit false

/-!
# Loaded schemas survive being written

A loaded schema is written and loaded again as itself if every number in its default values that is
no integer is read again as itself, and only then (`Schema.load_text`).  Numbers with few digits are
(`Finite64.HasFewDigits`); others may be read as a neighbour (`Schema.load_text_ne`).  Nothing else
is lost: a type that is not known by its name is written as the type that it was read as.
-/

namespace JsonSql

open JsonSql.Decimal

/-! ## Numbers that are no integers -/

namespace Json

mutual
/-- The numbers in a value that are no integers. -/
def floats : Json → List Finite64
  | number (.float x) => [x]
  | array items => floatsOfItems items
  | object members => floatsOfMembers members
  | _ => []

/-- The numbers in items that are no integers. -/
def floatsOfItems : List Json → List Finite64
  | [] => []
  | item :: rest => item.floats ++ floatsOfItems rest

/-- The numbers in the values of members that are no integers. -/
def floatsOfMembers : List (String × Json) → List Finite64
  | [] => []
  | (_, value) :: rest => value.floats ++ floatsOfMembers rest
end

mutual
/-- A value is read again as itself if its numbers are, and only then. -/
theorem reread_eq_iff : ∀ v : Json, v.reread = v ↔ ∀ x ∈ v.floats, x.reread = x
  | null | bool _ | string _ | number (.int _) => by simp [reread, floats, Number.reread]
  | number (.float x) => by simp [reread, floats, Number.reread]
  | array items => by
    rw [reread, floats, array.injEq]
    exact rereadItems_eq_iff items
  | object members => by
    rw [reread, floats, object.injEq]
    exact rereadMembers_eq_iff members

theorem rereadItems_eq_iff : ∀ items : List Json,
    rereadItems items = items ↔ ∀ x ∈ floatsOfItems items, x.reread = x
  | [] => by simp [rereadItems, floatsOfItems]
  | item :: rest => by
    rw [rereadItems, floatsOfItems, List.cons.injEq, List.forall_mem_append, reread_eq_iff item,
      rereadItems_eq_iff rest]

theorem rereadMembers_eq_iff : ∀ members : List (String × Json),
    rereadMembers members = members ↔ ∀ x ∈ floatsOfMembers members, x.reread = x
  | [] => by simp [rereadMembers, floatsOfMembers]
  | (key, value) :: rest => by
    rw [rereadMembers, floatsOfMembers, List.cons.injEq, List.forall_mem_append, Prod.mk.injEq,
      eq_self_iff_true, true_and, reread_eq_iff value, rereadMembers_eq_iff rest]
end

end Json

/-- The numbers in the default value of a field that are no integers. -/
def Field.defaultFloats (f : Field) : List Finite64 := (f.defaultValue.map Json.floats).getD []

/-- The numbers in default values of a schema that are no integers. -/
def Schema.defaultFloats (s : Schema) : List Finite64 :=
  s.collections.flatMap fun c => c.fields.flatMap Field.defaultFloats

/-- A map keeps a list if it keeps every item, and only then. -/
theorem map_eq_self_iff {α : Type} {f : α → α} {xs : List α} :
    xs.map f = xs ↔ ∀ x ∈ xs, f x = x := by
  induction xs with
  | nil => simp
  | cons x xs ih => rw [List.map_cons, List.cons.injEq, ih, List.forall_mem_cons]

theorem Field.reread_eq_iff (f : Field) : f.reread = f ↔ ∀ x ∈ f.defaultFloats, x.reread = x := by
  obtain ⟨name, type, special, defaultValue⟩ := f
  cases defaultValue with
  | none => simp [reread, defaultFloats]
  | some v => simp [reread, defaultFloats, Json.reread_eq_iff v]

theorem Collection.reread_eq_iff (c : Collection) :
    c.reread = c ↔ ∀ x ∈ c.fields.flatMap Field.defaultFloats, x.reread = x := by
  have hfields : c.reread = c ↔ c.fields.map Field.reread = c.fields := by
    obtain ⟨info, fields⟩ := c
    simp [reread]
  rw [hfields, map_eq_self_iff, List.forall_mem_flatMap]
  exact forall₂_congr fun f _ => f.reread_eq_iff

/-- A schema is the schema with its numbers read again if each of them is read again as itself. -/
theorem Schema.reread_eq_iff (s : Schema) :
    s.reread = s ↔ ∀ x ∈ s.defaultFloats, x.reread = x := by
  have hcollections : s.reread = s ↔ s.collections.map Collection.reread = s.collections := by
    obtain ⟨collections, relations⟩ := s
    simp [reread]
  rw [hcollections, map_eq_self_iff, defaultFloats, List.forall_mem_flatMap]
  exact forall₂_congr fun c _ => c.reread_eq_iff

/-! ## Names of types -/

namespace FieldType

theorem after?_geometry_name (t : FieldType) : Text.after? "geometry." t.name = none := by
  cases t <;> decide +kernel

theorem find?_name_eq_none {s : String} (h : ∀ t : FieldType, t.name ≠ s) :
    all.find? (fun t => t.name = s) = none := by
  rw [List.find?_eq_none]
  intro t _
  simpa using h t

/-- Every kind of geometry is one type. -/
theorem ofName_geometry (kind : String) : ofName ("geometry." ++ kind) = .geometry := by
  have hnone : all.find? (fun t => t.name = "geometry." ++ kind) = none := by
    refine find?_name_eq_none fun t hname => ?_
    have hafter := Text.after?_append "geometry." kind
    rw [← hname, after?_geometry_name] at hafter
    cases hafter
  rw [ofName, hnone]
  dsimp only
  rw [Text.after?_append]
  rfl

/-- A name that no type has and that is no kind of geometry stands for the unknown type. -/
theorem ofName_of_ne {s : String} (hname : ∀ t : FieldType, t.name ≠ s)
    (hkind : ∀ kind, s ≠ "geometry." ++ kind) : ofName s = .unknown := by
  have hafter : Text.after? "geometry." s = none := by
    cases hrest : Text.after? "geometry." s with
    | none => rfl
    | some kind => exact absurd (Text.eq_append_of_after? hrest) (hkind kind)
  rw [ofName, find?_name_eq_none hname]
  dsimp only
  rw [hafter]
  rfl

end FieldType

/-! ## Questions to a schema that is loaded again -/

namespace Schema

variable (s : Schema)

theorem provider_collection_reread (name : String) :
    s.reread.provider.collection name = s.provider.collection name := by
  show Except.ok ((s.reread.collection? name).map Collection.info) = _
  rw [collection?_reread, Option.map_map]
  rfl

theorem provider_fields_reread (name : String) :
    s.reread.provider.fields name = (s.provider.fields name).map (List.map Field.reread) := by
  show Except.ok (s.reread.fieldsOf name) = _
  rw [fieldsOf, collection?_reread, Option.map_map]
  show _ = Except.ok ((s.fieldsOf name).map Field.reread)
  rw [fieldsOf]
  cases s.collection? name <;> rfl

theorem provider_field_reread (collection name : String) :
    s.reread.provider.field collection name =
      (s.provider.field collection name).map (Option.map Field.reread) := by
  show Except.ok (s.reread.field? collection name) = _
  rw [field?, collection?_reread]
  show _ = Except.ok ((s.field? collection name).map Field.reread)
  rw [field?]
  cases s.collection? collection with
  | none => rfl
  | some c => exact congrArg Except.ok (field?_reread c name)

/-! ## Loading what was written -/

/-- A loaded schema is written and loaded again as the schema with the numbers in its default values
read again: as itself if each of them that is no integer is read again as itself, such as every
number with few digits.  All questions have the answers that they had, with such numbers read again
in the default values of fields, and every name of a type stands for a type whose own name stands
for it. -/
theorem load_text {text : String} {s : Schema} (h : load text = .ok s) :
    load s.toJson.text = .ok s.reread ∧
    (s.reread = s ↔ ∀ x ∈ s.defaultFloats, x.reread = x) ∧
    (∀ x : Finite64, x.HasFewDigits → x.reread = x) ∧
    s.reread.summary = s.summary ∧
    (∀ name, s.reread.provider.collection name = s.provider.collection name) ∧
    (∀ name, s.reread.provider.fields name =
      (s.provider.fields name).map (List.map Field.reread)) ∧
    (∀ collection name, s.reread.provider.field collection name =
      (s.provider.field collection name).map (Option.map Field.reread)) ∧
    s.reread.provider.relations = s.provider.relations ∧
    (∀ name, FieldType.ofName (FieldType.ofName name).name = FieldType.ofName name) ∧
    (∀ kind, FieldType.ofName ("geometry." ++ kind) = .geometry) ∧
    (∀ name, (∀ t : FieldType, t.name ≠ name) → (∀ kind, name ≠ "geometry." ++ kind) →
      FieldType.ofName name = .unknown) :=
  ⟨load_toJson h, s.reread_eq_iff, fun _ => Finite64.reread_of_hasFewDigits, s.summary_reread,
    s.provider_collection_reread, s.provider_fields_reread, s.provider_field_reread, rfl,
    fun name => FieldType.ofName_name (.ofName name), FieldType.ofName_geometry,
    fun _ => FieldType.ofName_of_ne⟩

/-- The text of a schema of one collection, whose field `rate` has a default value. -/
def textOfRate (rate : String) : String :=
  "\x7b\"collections\": [\x7b\"collection\": \"accounts\", \"primary\": \"id\", \"fields\": [" ++
    "\x7b\"field\": \"id\", \"type\": \"integer\"\x7d, " ++
    "\x7b\"field\": \"rate\", \"type\": \"money\", \"default_value\": " ++ rate ++ "\x7d]\x7d]\x7d"

theorem load_text_rate : ∃ s, load (textOfRate "[0.015, 3]") = .ok s ∧
    s.defaultFloats.length = 1 ∧ load s.toJson.text = .ok s := by
  obtain ⟨s, hload, hfloats⟩ : ∃ s, load (textOfRate "[0.015, 3]") = .ok s ∧
      (s.defaultFloats.length, s.defaultFloats.all fun x => x.HasFewDigits) = (1, true) :=
    Except.exists_eq_ok (by decide +kernel)
  obtain ⟨hlength, hall⟩ := Prod.mk.inj hfloats
  obtain ⟨hreload, hsame, hfew, -⟩ := load_text hload
  refine ⟨s, hload, hlength, ?_⟩
  rwa [hsame.mpr fun x hx => hfew x (of_decide_eq_true (List.all_eq_true.mp hall x hx))]
    at hreload

/-- A schema with a number of sixteen digits in a default value is loaded again as another one. -/
theorem load_text_ne : ∃ text s, load text = .ok s ∧ load s.toJson.text ≠ .ok s := by
  obtain ⟨s, hload, hfloats⟩ : ∃ s, load (textOfRate "1e-30") = .ok s ∧
      (s.defaultFloats.all fun x => x.reread = x) = false :=
    Except.exists_eq_ok (by decide +kernel)
  refine ⟨textOfRate "1e-30", s, hload, fun hreload => ?_⟩
  have hsame : s.reread = s := Except.ok.inj ((load_toJson hload).symm.trans hreload)
  rw [List.all_eq_true.mpr fun x hx => decide_eq_true (s.reread_eq_iff.mp hsame x hx)] at hfloats
  cases hfloats

end Schema

end JsonSql
