import SSize.Text
import Mathlib.Algebra.Group.Nat.Defs
import Mathlib.Algebra.Ring.Int.Defs

/-!
# The metrics data model (`models.hpp`)

Times are unix milliseconds and money is kopecks, both `int64` in the sources.
No modelled computation on them comes near the bounds, so they are `Int`; a cast
to a narrower type is explicit.
-/

namespace SSize

abbrev Kopek := Int

abbrev TsMs := Int

/-- `static_cast<int>`, the low 32 bits. -/
def castInt (v : Int) : Int := v.bmod (2 ^ 32)

/-- `static_cast<std::int64_t>`, the low 64 bits. -/
def castInt64 (v : Int) : Int := v.bmod (2 ^ 64)

/-- `static_cast<std::uint16_t>`. -/
def castUint16 (v : Int) : Nat := (v % 2 ^ 16).toNat

/-- `static_cast<std::uint64_t>`, which is `std::size_t` as well. -/
def castUint64 (v : Int) : Nat := (v % 2 ^ 64).toNat

/-! ## What a type can represent -/

def FitsInt (n : Int) : Prop := -2 ^ 31 ≤ n ∧ n < 2 ^ 31

def FitsInt64 (n : Int) : Prop := -2 ^ 63 ≤ n ∧ n < 2 ^ 63

def FitsUint16 (n : Int) : Prop := 0 ≤ n ∧ n < 2 ^ 16

def FitsUint64 (n : Int) : Prop := 0 ≤ n ∧ n < 2 ^ 64

theorem castInt_fits (v : Int) : FitsInt (castInt v) := by
  have hlow := Int.le_bmod (x := v) (m := 2 ^ 32) (by decide)
  have hhigh := Int.bmod_lt (x := v) (m := 2 ^ 32) (by decide)
  unfold FitsInt castInt
  omega

/-- A cast keeps the values of its type and no other. -/
theorem castInt_eq_self_iff {v : Int} : castInt v = v ↔ FitsInt v := by
  constructor
  · exact fun h => h ▸ castInt_fits v
  · intro h
    unfold FitsInt at h
    rw [castInt, Int.bmod_eq_of_le] <;> omega

theorem castInt64_eq_self_iff {v : Int} : castInt64 v = v ↔ FitsInt64 v := by
  have hlow := Int.le_bmod (x := v) (m := 2 ^ 64) (by decide)
  have hhigh := Int.bmod_lt (x := v) (m := 2 ^ 64) (by decide)
  constructor
  · intro h
    rw [castInt64] at h
    unfold FitsInt64
    omega
  · intro h
    unfold FitsInt64 at h
    rw [castInt64, Int.bmod_eq_of_le] <;> omega

theorem castUint16_eq_self_iff {v : Int} : (castUint16 v : Int) = v ↔ FitsUint16 v := by
  unfold castUint16 FitsUint16
  omega

theorem castUint64_eq_self_iff {v : Int} : (castUint64 v : Int) = v ↔ FitsUint64 v := by
  unfold castUint64 FitsUint64
  omega

inductive EventType where
  | impression
  | cardClick
  | outbound
  | search
deriving DecidableEq, Repr

/-- `to_string(EventType)`, the text stored in `events.type`. -/
def EventType.toString : EventType → Text
  | .impression => bytes "impression"
  | .cardClick => bytes "card_click"
  | .outbound => bytes "outbound"
  | .search => bytes "search"

theorem EventType.toString_injective {s t : EventType} (h : s.toString = t.toString) :
    s = t := by
  revert h
  cases s <;> cases t <;> decide

structure Event where
  ts : TsMs := 0
  anonId : Text := []
  sessionId : Text := []
  type : EventType := .impression
  itemId : Option Int := none
  position : Option Int := none
  surface : Text := []
  clickToken : Text := []
  source : Text := []
  uaClass : Text := []
  ipHash : List UInt8 := []
  payload : Text := []
deriving DecidableEq, Repr

/-- An affiliate postback waiting to be written (`events.hpp`). -/
structure Conversion where
  clickToken : Text := []
  ts : TsMs := 0
  orderRef : Text := []
  amount : Option Kopek := none
  status : Text := []
  raw : Text := []
deriving DecidableEq, Repr

end SSize
