import SSize.Text

/-!
# Responses, as far as the handlers build them
-/

namespace SSize

inductive Status where
  | ok
  | noContent
  | found
  | notModified
  | badRequest
  | forbidden
  | notFound
  | internalServerError
  | serviceUnavailable
deriving DecidableEq, Repr

/-- A status from 400 on. -/
def Status.refuses : Status → Bool
  | .ok | .noContent | .found | .notModified => false
  | .badRequest | .forbidden | .notFound | .internalServerError | .serviceUnavailable => true

structure Response where
  status : Status
  fields : List (Text × Text) := []
  body : Text := []
deriving DecidableEq, Repr

/-- `fields::insert`: one more field of that name. -/
def Response.insert (res : Response) (name value : Text) : Response :=
  { res with fields := res.fields ++ [(name, value)] }

/-- `fields::set`: replaces the fields of that name. -/
def Response.set (res : Response) (name value : Text) : Response :=
  { res with fields := res.fields.filter (fun f => f.1 != name) ++ [(name, value)] }

/-- Setting a field leaves those of another name. -/
theorem Response.filter_set (res : Response) {name other : Text} (h : name ≠ other) (value : Text) :
    (res.set name value).fields.filter (fun f => f.1 == other) =
      res.fields.filter fun f => f.1 == other := by
  have hnew : (name == other) = false := beq_false_of_ne h
  have hkept : (res.fields.filter fun f => f.1 != name).filter (fun f => f.1 == other) =
      res.fields.filter fun f => f.1 == other := by
    rw [List.filter_filter]
    apply List.filter_congr
    intro f _
    by_cases hf : f.1 = other
    · have hne : f.1 ≠ name := fun heq => h (heq.symm.trans hf)
      simp [hf, Ne.symm h]
    · simp [hf]
  simp [Response.set, List.filter_append, hkept, hnew]

def makeResponse (st : Status) (body contentType : Text) : Response :=
  { (Response.mk st [] []).set (bytes "Content-Type") contentType with body := body }

def textResponse (st : Status) (body : Text) : Response :=
  makeResponse st body (bytes "text/plain; charset=utf-8")

@[simp] theorem textResponse_status (st : Status) (body : Text) :
    (textResponse st body).status = st := rfl

end SSize
