import Mathlib.Tactic

/-!
# JSON values

A JSON text is read into a value, which is looked into with the accessors of a
library for C++: asking a value that is not an object for a key is an error for
`field` and `value` but not for `find` and `contains`, and a loop visits a value
that is neither an array nor an object as its own only element. A number stands
for what a conversion to an integer makes of it.
-/

/-- **JSON values.** -/
inductive Json
  | null
  | bool (value : Bool)
  | number (value : ℤ)
  | string (value : String)
  | array (elements : List Json)
  | object (fields : List (String × Json))

inductive JsonError
  | typeError
  | outOfRange (key : String)
  deriving DecidableEq

namespace Json

def find (j : Json) (key : String) : Option Json :=
  match j with
  | object fields => fields.lookup key
  | _ => none

def contains (j : Json) (key : String) : Bool := (j.find key).isSome

def field (j : Json) (key : String) : Except JsonError Json :=
  match j with
  | object fields =>
    match fields.lookup key with
    | some value => .ok value
    | none => .error (.outOfRange key)
  | _ => .error .typeError

/-- What is read from the value under a key, or a default if it is not
there. -/
def value {α : Type} (j : Json) (key : String) (read : Json → Except JsonError α) (default : α) :
    Except JsonError α :=
  match j with
  | object fields =>
    match fields.lookup key with
    | some value => read value
    | none => .ok default
  | _ => .error .typeError

def isObject : Json → Bool
  | object _ => true
  | _ => false

def asBool : Json → Except JsonError Bool
  | bool b => .ok b
  | _ => .error .typeError

def asString : Json → Except JsonError String
  | string s => .ok s
  | _ => .error .typeError

def asUInt64 : Json → Except JsonError ℕ
  | number n => .ok (n % 2 ^ 64).toNat
  | _ => .error .typeError

def asUnsigned : Json → Except JsonError ℕ
  | number n => .ok (n % 2 ^ 64).toNat
  | bool b => .ok b.toNat
  | _ => .error .typeError

def asWidth (bits : ℕ) : Json → Except JsonError ℕ
  | number n => .ok (n % 2 ^ bits).toNat
  | bool b => .ok b.toNat
  | _ => .error .typeError

def asInt : Json → Except JsonError ℤ
  | number n => .ok (.bmod n (2 ^ 32))
  | bool b => .ok b.toNat
  | _ => .error .typeError

def asStrings : Json → Except JsonError (List String)
  | array elements => elements.mapM asString
  | _ => .error .typeError

def elements : Json → List Json
  | null => []
  | array elements => elements
  | object fields => fields.map Prod.snd
  | j => [j]

/-- What a loop over the keys and values visits; the keys of an array are its
positions. -/
def items : Json → List (String × Json)
  | null => []
  | array elements => elements.mapIdx fun i j => (toString i, j)
  | object fields => fields
  | j => [("", j)]

/-- Whether a value has no elements; a text or a number is its own element. -/
def isEmpty : Json → Bool
  | null => true
  | array elements => elements.isEmpty
  | object fields => fields.isEmpty
  | _ => false

variable {j : Json} {key : String}

theorem find_eq_none_of_contains (h : j.contains key = false) : j.find key = none := by
  unfold contains at h
  exact Option.isNone_iff_eq_none.mp (by simpa using h)

theorem find_of_field {value : Json} (h : j.field key = .ok value) : j.find key = some value := by
  cases j with
  | object fields =>
    unfold field at h
    dsimp only at h
    show fields.lookup key = some value
    cases hlk : fields.lookup key with
    | some =>
      rw [hlk] at h
      cases h
      rfl
    | none =>
      rw [hlk] at h
      cases h
  | null | bool | number | string | array => cases h

theorem isObject_of_value {α : Type} {read : Json → Except JsonError α}
    {default a : α} (h : j.value key read default = .ok a) : j.isObject = true := by
  cases j with
  | object => rfl
  | null | bool | number | string | array => cases h

def letters (text : String) : List UInt8 := text.toList.map fun c => .ofNat c.toNat

mutual

/-- A text for a value in ASCII that has nothing to be escaped. -/
def text : Json → List UInt8
  | .null => letters "null"
  | .bool value => letters (toString value)
  | .number value => letters (toString value)
  | .string value => letters "\"" ++ letters value ++ letters "\""
  | .array elements => letters "[" ++ texts elements ++ letters "]"
  | .object fields => letters "\x7b" ++ fieldTexts fields ++ letters "\x7d"

def texts : List Json → List UInt8
  | [] => []
  | value :: rest => value.text ++ (if rest.isEmpty then [] else letters ",") ++ texts rest

def fieldTexts : List (String × Json) → List UInt8
  | [] => []
  | (key, value) :: rest =>
    letters "\"" ++ letters key ++ letters "\":" ++ value.text ++
      (if rest.isEmpty then [] else letters ",") ++ fieldTexts rest

end

end Json
