-- JSON values, the accessors on them and the compact text they print as.
import Mathlib.Algebra.Group.Nat.Defs
import Mathlib.Data.List.Basic

namespace json

/-- A number. A float is kept as the text it prints as. -/
inductive Number
  | PosInt (n : Nat)
  | NegInt (n : Int)
  | Float (text : String)
deriving DecidableEq, Repr

/-- A value. The fields of an object stand in the order of its map. -/
inductive Value
  | null
  | bool (b : Bool)
  | number (n : Number)
  | string (s : String)
  | array (xs : List Value)
  | object (fields : List (String × Value))
deriving Repr

/-! ## Equality -/

mutual

/-- Values are compared field by field and item by item. -/
def Value.decide_eq : (a b : Value) → Decidable (a = b)
  | .null, .null => isTrue rfl
  | .bool a, .bool b => decidable_of_iff (a = b) (by simp)
  | .number a, .number b => decidable_of_iff (a = b) (by simp)
  | .string a, .string b => decidable_of_iff (a = b) (by simp)
  | .array a, .array b =>
    match items_decide_eq a b with
    | isTrue h => isTrue (h ▸ rfl)
    | isFalse h => isFalse (fun e => h (by injection e))
  | .object a, .object b =>
    match fields_decide_eq a b with
    | isTrue h => isTrue (h ▸ rfl)
    | isFalse h => isFalse (fun e => h (by injection e))
  | .null, .bool _ | .null, .number _ | .null, .string _ | .null, .array _ | .null, .object _
  | .bool _, .null | .bool _, .number _ | .bool _, .string _ | .bool _, .array _
  | .bool _, .object _ | .number _, .null | .number _, .bool _ | .number _, .string _
  | .number _, .array _ | .number _, .object _ | .string _, .null | .string _, .bool _
  | .string _, .number _ | .string _, .array _ | .string _, .object _ | .array _, .null
  | .array _, .bool _ | .array _, .number _ | .array _, .string _ | .array _, .object _
  | .object _, .null | .object _, .bool _ | .object _, .number _ | .object _, .string _
  | .object _, .array _ => isFalse nofun

def items_decide_eq : (a b : List Value) → Decidable (a = b)
  | [], [] => isTrue rfl
  | [], _ :: _ => isFalse nofun
  | _ :: _, [] => isFalse nofun
  | a :: as, b :: bs =>
    match Value.decide_eq a b, items_decide_eq as bs with
    | isTrue h, isTrue h' => isTrue (h ▸ h' ▸ rfl)
    | isFalse h, _ => isFalse (fun e => h (by injection e))
    | _, isFalse h => isFalse (fun e => h (by injection e))

def fields_decide_eq : (a b : List (String × Value)) → Decidable (a = b)
  | [], [] => isTrue rfl
  | [], _ :: _ => isFalse nofun
  | _ :: _, [] => isFalse nofun
  | (k, a) :: as, (l, b) :: bs =>
    match decEq k l, Value.decide_eq a b, fields_decide_eq as bs with
    | isTrue h, isTrue h', isTrue h'' => isTrue (h ▸ h' ▸ h'' ▸ rfl)
    | isFalse h, _, _ => isFalse (fun e => h (by injection e with e; injection e))
    | _, isFalse h, _ => isFalse (fun e => h (by injection e with e; injection e))
    | _, _, isFalse h => isFalse (fun e => h (by injection e))

end

instance : DecidableEq Value := Value.decide_eq

/-! ## Accessors -/

def Value.is_object : Value → Bool
  | .object _ => true
  | _ => false

def Value.is_array : Value → Bool
  | .array _ => true
  | _ => false

def Value.is_string : Value → Bool
  | .string _ => true
  | _ => false

def Value.is_boolean : Value → Bool
  | .bool _ => true
  | _ => false

def Value.is_number : Value → Bool
  | .number _ => true
  | _ => false

def Value.as_str : Value → Option String
  | .string s => some s
  | _ => none

def Value.as_bool : Value → Option Bool
  | .bool b => some b
  | _ => none

def Value.as_array : Value → Option (List Value)
  | .array xs => some xs
  | _ => none

def Value.as_object : Value → Option (List (String × Value))
  | .object fields => some fields
  | _ => none

def Value.as_u64 : Value → Option Nat
  | .number (.PosInt n) => some n
  | _ => none

def Value.as_i64 : Value → Option Int
  | .number (.PosInt n) => if n < 2 ^ 63 then some n else none
  | .number (.NegInt n) => some n
  | _ => none

/-- The field of an object; another value has none. -/
def Value.get : Value → String → Option Value
  | .object fields, k => fields.lookup k
  | _, _ => none

/-- Indexing by a field, with `null` for a field that is not there. -/
def Value.index (v : Value) (k : String) : Value := (v.get k).getD .null

/-! ## Printing -/

def hex_digit (n : Nat) : Char := Nat.digitChar (n % 16)

def escape_char (c : Char) : List Char :=
  if c = '"' then ['\\', '"']
  else if c = '\\' then ['\\', '\\']
  else if c = '\n' then ['\\', 'n']
  else if c = '\r' then ['\\', 'r']
  else if c = '\t' then ['\\', 't']
  else if c.toNat = 8 then ['\\', 'b']
  else if c.toNat = 12 then ['\\', 'f']
  else if c.toNat < 32 then ['\\', 'u', '0', '0', hex_digit (c.toNat / 16), hex_digit c.toNat]
  else [c]

def quote (s : String) : String := "\"" ++ String.ofList (s.toList.flatMap escape_char) ++ "\""

def Number.to_string : Number → String
  | .PosInt n => toString n
  | .NegInt n => toString n
  | .Float text => text

mutual

/-- The compact text of a value. -/
def Value.to_string : Value → String
  | .null => "null"
  | .bool b => if b then "true" else "false"
  | .number n => n.to_string
  | .string s => quote s
  | .array xs => "[" ++ ",".intercalate (item_strings xs) ++ "]"
  | .object fields => "\x7b" ++ ",".intercalate (field_strings fields) ++ "\x7d"

def item_strings : List Value → List String
  | [] => []
  | x :: rest => x.to_string :: item_strings rest

def field_strings : List (String × Value) → List String
  | [] => []
  | (k, v) :: rest => (quote k ++ ":" ++ v.to_string) :: field_strings rest

end

end json
