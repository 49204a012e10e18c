import SSize.Text

/-!
# JSON values

`nlohmann::json` as far as the handlers look at it or build it. Parsing and
printing are the library's.
-/

namespace SSize

inductive Json where
  | null
  | bool (b : Bool)
  /-- A number without fraction and exponent, whatever its size. -/
  | integer (n : Int)
  /-- Any other number, as it was written. -/
  | float (literal : Text)
  | string (s : Text)
  | array (elements : List Json)
  | object (fields : List (Text × Json))

namespace Json

/-- `find(key)` on an object. -/
def find? (key : Text) : Json → Option Json
  | object fields => fields.lookup key
  | _ => none

/-- `j[key] = v` on an object. -/
def set : Json → Text → Json → Json
  | object fields, key, v => object (fields.filter (fun f => f.1 != key) ++ [(key, v)])
  | j, _, _ => j

/-- `it != end() && it->is_number_integer()`. -/
def integer? (key : Text) (j : Json) : Option Int :=
  match j.find? key with
  | some (integer n) => some n
  | _ => none

/-- `it != end() && it->is_string()`. -/
def string? (key : Text) (j : Json) : Option Text :=
  match j.find? key with
  | some (string s) => some s
  | _ => none

/-- Setting one key leaves the others. -/
theorem find?_set_of_ne {key name : Text} (h : name ≠ key) (v j : Json) :
    (j.set key v).find? name = j.find? name := by
  cases j with
  | object fields =>
      have hlast : (name == key) = false := beq_false_of_ne h
      have hkept : (fields.filter fun f => f.1 != key).lookup name = fields.lookup name := by
        induction fields with
        | nil => rfl
        | cons f fields ih =>
            by_cases hkey : f.1 = key
            · have hother : (name == f.1) = false := beq_false_of_ne (hkey ▸ h)
              rw [List.filter_cons_of_neg (by simpa using hkey), ih, List.lookup_cons, hother]
            · rw [List.filter_cons_of_pos (by simpa using hkey), List.lookup_cons,
                List.lookup_cons, ih]
      simp only [set, find?, List.lookup_append, hkept, List.lookup_cons, List.lookup_nil, hlast,
        Option.or_none]
  | _ => rfl

def isObject : Json → Bool
  | object _ => true
  | _ => false

end Json

end SSize
