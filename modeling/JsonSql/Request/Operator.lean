import JsonSql.Schema.Field

set_option autoImplicit false

/-!
# Operators of filters

The thirty-two operators by which a filter compares a column with values: the keys that name them,
how many values each takes and the types of fields that admit it.  Most come in pairs of an
operator and its negation.
-/

namespace JsonSql

/-- Where one text is looked for in another. -/
inductive Placement where
  | anywhere
  | atStart
  | atEnd
  deriving DecidableEq, Repr, Inhabited

/-- An operator of a filter. -/
inductive Operator where
  | equal (ignoreCase negated : Bool)
  | less
  | lessOrEqual
  | greater
  | greaterOrEqual
  | oneOf (negated : Bool)
  | null (negated : Bool)
  | empty (negated : Bool)
  /-- one text holds another -/
  | holds (place : Placement) (ignoreCase negated : Bool)
  | between (negated : Bool)
  /-- geometries meet, or their bounding boxes do -/
  | intersects (boxes negated : Bool)
  deriving DecidableEq, Repr, Inhabited

/-- How many values an operator takes. -/
inductive Arity where
  /-- none, but a value that stands for no turns the operator into its negation -/
  | none
  | single
  /-- any number -/
  | list
  /-- exactly two -/
  | pair
  /-- one geometry -/
  | geometry
  deriving DecidableEq, Repr, Inhabited

/-- The name of an arity. -/
def Arity.name : Arity → String
  | none => "none"
  | single => "single"
  | list => "list"
  | pair => "pair"
  | geometry => "geometry"

/-- The stem of the keys of a placement. -/
def Placement.stem : Placement → String
  | anywhere => "contains"
  | atStart => "starts_with"
  | atEnd => "ends_with"

namespace Operator

/-! ## Keys -/

/-- The two operators that differ in negation. -/
def both (op : Bool → Operator) : List Operator := [op false, op true]

/-- The operators that look for a text at a place. -/
def placed (place : Placement) : List Operator :=
  both (holds place false) ++ both (holds place true)

/-- All operators. -/
def all : List Operator :=
  both (equal false) ++ both (equal true) ++ [less, lessOrEqual, greater, greaterOrEqual] ++
    both oneOf ++ both null ++ both empty ++
    placed .anywhere ++ placed .atStart ++ placed .atEnd ++
    both between ++ both (intersects false) ++ both (intersects true)

/-- Whether an operator is the negation of its twin. -/
def isNegated : Operator → Bool
  | equal _ n | oneOf n | null n | empty n | holds _ _ n | between n | intersects _ n => n
  | _ => false

/-- Whether an operator takes no notice of case. -/
def ignoresCase : Operator → Bool
  | equal i _ | holds _ i _ => i
  | _ => false

/-- The part of a key that an operator shares with its variants. -/
def stem : Operator → String
  | equal _ _ => "eq"
  | less => "lt"
  | lessOrEqual => "lte"
  | greater => "gt"
  | greaterOrEqual => "gte"
  | oneOf _ => "in"
  | null _ => "null"
  | empty _ => "empty"
  | holds place _ _ => place.stem
  | between _ => "between"
  | intersects boxes _ => if boxes then "intersects_bbox" else "intersects"

/-- The key of an operator in a filter. -/
def key (op : Operator) : String :=
  "_" ++ (if op.isNegated then "n" else "") ++ (if op.ignoresCase then "i" else "") ++ op.stem

/-- The operator with a key. -/
def ofKey? (s : String) : Option Operator := all.find? fun op => op.key = s

theorem mem_all (op : Operator) : op ∈ all := by
  cases op with
  | equal i n => cases i <;> cases n <;> decide
  | holds p i n => cases p <;> cases i <;> cases n <;> decide
  | intersects b n => cases b <;> cases n <;> decide
  | oneOf n | null n | empty n | between n => cases n <;> decide
  | less | lessOrEqual | greater | greaterOrEqual => decide

/-- No two operators share a key. -/
theorem nodup_keys : (all.map key).Nodup := by decide +kernel

theorem ofKey?_key (op : Operator) : ofKey? op.key = some op := by
  have table : all.all (fun op => ofKey? op.key == some op) = true := by decide +kernel
  simpa using List.all_eq_true.mp table op (mem_all op)

/-! ## Admission -/

/-- How many values an operator takes. -/
def arity : Operator → Arity
  | null _ | empty _ => .none
  | oneOf _ => .list
  | between _ => .pair
  | intersects _ _ => .geometry
  | _ => .single

/-- The operators that a type of field admits. -/
def allowedFor : FieldType → List Operator
  | .string | .text =>
    both (equal false) ++ both (equal true) ++
      placed .anywhere ++ placed .atStart ++ placed .atEnd ++
      both oneOf ++ both empty ++ both null
  | .csv =>
    both (equal false) ++ both (holds .anywhere false) ++ both oneOf ++ both empty ++ both null
  | .uuid => both (equal false) ++ both oneOf ++ both null
  | .integer | .bigInteger | .decimal | .float | .date | .dateTime | .time | .timestamp =>
    both (equal false) ++ [less, lessOrEqual, greater, greaterOrEqual] ++
      both between ++ both oneOf ++ both null
  | .boolean => both (equal false) ++ both null
  | .json => both null
  | .geometry =>
    both (equal false) ++ both (intersects false) ++ both (intersects true) ++ both null
  | .hash => both null ++ both empty
  | .virtual | .binary | .unknown => both (equal false) ++ both null

/-- Whether a type of field admits an operator. -/
def isAllowedFor (op : Operator) (type : FieldType) : Bool := (allowedFor type).contains op

/-- Operators that tell nothing of a concealed value but whether there is one. -/
def isBlind : Operator → Bool
  | null _ | empty _ => true
  | _ => false

/-- The operators of a hash are the blind ones. -/
theorem isAllowedFor_hash (op : Operator) : op.isAllowedFor .hash = op.isBlind := by
  have table : all.all (fun op => op.isAllowedFor .hash == op.isBlind) = true := by decide +kernel
  simpa using List.all_eq_true.mp table op (mem_all op)

end Operator

end JsonSql
