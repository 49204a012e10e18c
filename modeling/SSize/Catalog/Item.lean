import SSize.Models
import Mathlib.Algebra.Order.Ring.Rat
import Mathlib.Order.WithBot

/-!
# The catalog data model (`models.hpp`)
-/

namespace SSize

/-- A `double` that sqlite can hold in a `NOT NULL` column: every `NaN` is stored
as `NULL`, so what is left is ordered like the extended rationals. -/
abbrev Score := WithBot (WithTop ℚ)

inductive ItemStatus where
  | draft
  | published
  | archived
deriving DecidableEq, Repr

/-- `to_string(ItemStatus)`, the text stored in `items.status`. -/
def ItemStatus.toString : ItemStatus → Text
  | .draft => bytes "draft"
  | .published => bytes "published"
  | .archived => bytes "archived"

def itemStatusFromString (s : Text) : Option ItemStatus :=
  if s = bytes "draft" then some .draft
  else if s = bytes "published" then some .published
  else if s = bytes "archived" then some .archived
  else none

@[simp] theorem itemStatusFromString_toString (s : ItemStatus) :
    itemStatusFromString s.toString = some s := by
  cases s <;> decide

structure Image where
  id : Int := 0
  path : Text := []
  thumbPath : Text := []
  width : Int := 0
  height : Int := 0
  sortOrder : Int := 0
deriving DecidableEq

structure Partner where
  id : Int := 0
  code : Text := []
  title : Text := []
  linkTemplate : Text := []
  enabled : Bool := true
deriving DecidableEq

structure Color where
  name : Text := []
  hex : Text := []
deriving DecidableEq

structure Item where
  id : Int := 0
  title : Text := []
  description : Text := []
  brand : Text := []
  priceKopek : Kopek := 0
  oldPriceKopek : Option Kopek := none
  currency : Text := bytes "RUB"
  partnerId : Int := 0
  productUrl : Text := []
  campaign : Text := []
  status : ItemStatus := .draft
  score : Score := ((0 : ℚ) : WithTop ℚ)
  images : List Image := []
  tags : List Text := []
  sizes : List Text := []
  colors : List Color := []
  createdAt : TsMs := 0
  updatedAt : TsMs := 0
  publishedAt : Option TsMs := none
deriving DecidableEq

end SSize
