import SSize.Handlers.Pages
import SSize.Lib.Separated

/-!
# Queries that were encoded and parsed

`url_encode` is in `links.cpp`, `url_decode` and `parse_query` in `handlers.cpp`.
An encoded text has no `&`, `=` and `+` in it, so the splitting of `parse_query`
finds the pairs that were joined, and the decoder gives each text back.
-/

namespace SSize

open Lib

/-! ## One byte -/

/-- What is to be said about every byte can be computed. -/
instance decidableForallByte (p : UInt8 → Prop) [DecidablePred p] : Decidable (∀ c, p c) :=
  decidable_of_iff (∀ i : Fin 256, p (UInt8.ofFin i))
    ⟨fun h c => h c.toFin, fun h i => h (UInt8.ofFin i)⟩

theorem hexValue_high (c : UInt8) : hexValue (hexDigit (c >>> 4)) = some (c >>> 4) := by
  revert c
  decide +kernel

theorem hexValue_low (c : UInt8) : hexValue (hexDigit (c &&& 0x0F)) = some (c &&& 0x0F) := by
  revert c
  decide +kernel

theorem nibbles (c : UInt8) : (c >>> 4) * 16 + (c &&& 0x0F) = c := by
  revert c
  decide +kernel

/-- What `url_encode` writes for one byte. -/
def encodeByte (c : UInt8) : Text :=
  if isUnreserved c then [c] else ['%'.toUInt8, hexDigit (c >>> 4), hexDigit (c &&& 0x0F)]

theorem urlEncode_cons (c : UInt8) (s : Text) : urlEncode (c :: s) = encodeByte c ++ urlEncode s :=
  rfl

theorem plain_of_unreserved {c : UInt8} (h : isUnreserved c = true) :
    c ≠ '+'.toUInt8 ∧ c ≠ '%'.toUInt8 := by
  have hall : ∀ c, isUnreserved c = true → c ≠ '+'.toUInt8 ∧ c ≠ '%'.toUInt8 := by
    decide +kernel
  exact hall c h

/-- A byte other than `+` and `%` is copied. -/
theorem urlDecode_cons_plain {c : UInt8} (hplus : c ≠ '+'.toUInt8) (hpercent : c ≠ '%'.toUInt8)
    (rest : Text) : urlDecode (c :: rest) = c :: urlDecode rest := by
  match rest with
  | [] => simp [urlDecode, hplus]
  | [b] => simp [urlDecode, hplus]
  | hi :: lo :: rest => rw [urlDecode, if_neg hplus, if_neg hpercent]

theorem urlDecode_escape {hi lo h l : UInt8} (hhi : hexValue hi = some h)
    (hlo : hexValue lo = some l) (rest : Text) :
    urlDecode ('%'.toUInt8 :: hi :: lo :: rest) = (h * 16 + l) :: urlDecode rest := by
  rw [urlDecode, if_neg (by decide), if_pos rfl, hhi, hlo]

theorem urlDecode_encodeByte (c : UInt8) (rest : Text) :
    urlDecode (encodeByte c ++ rest) = c :: urlDecode rest := by
  unfold encodeByte
  split
  · next hunreserved =>
      obtain ⟨hplus, hpercent⟩ := plain_of_unreserved hunreserved
      exact urlDecode_cons_plain hplus hpercent rest
  · calc urlDecode ('%'.toUInt8 :: hexDigit (c >>> 4) :: hexDigit (c &&& 0x0F) :: rest)
        = ((c >>> 4) * 16 + (c &&& 0x0F)) :: urlDecode rest :=
          urlDecode_escape (hexValue_high c) (hexValue_low c) rest
      _ = c :: urlDecode rest := by rw [nibbles]

theorem urlDecode_urlEncode (s : Text) : urlDecode (urlEncode s) = s := by
  induction s with
  | nil => rfl
  | cons c s ih => rw [urlEncode_cons, urlDecode_encodeByte, ih]

/-- The bytes that mean something to `parse_query` are escaped. -/
theorem encodeByte_separators (c : UInt8) :
    '&'.toUInt8 ∉ encodeByte c ∧ '='.toUInt8 ∉ encodeByte c := by
  revert c
  decide +kernel

theorem separators_not_mem_urlEncode (s : Text) :
    '&'.toUInt8 ∉ urlEncode s ∧ '='.toUInt8 ∉ urlEncode s := by
  induction s with
  | nil => exact ⟨List.not_mem_nil, List.not_mem_nil⟩
  | cons c s ih =>
      rw [urlEncode_cons, List.mem_append, List.mem_append]
      exact ⟨not_or.2 ⟨(encodeByte_separators c).1, ih.1⟩,
        not_or.2 ⟨(encodeByte_separators c).2, ih.2⟩⟩

/-! ## The query -/

/-- `key=value`, both encoded. -/
def encodePair (pair : Text × Text) : Text :=
  urlEncode pair.1 ++ '='.toUInt8 :: urlEncode pair.2

/-- The pairs joined by `&`. -/
def encodeQuery (pairs : List (Text × Text)) : Text :=
  ['&'.toUInt8].intercalate (pairs.map encodePair)

theorem amp_not_mem_encodePair (pair : Text × Text) : '&'.toUInt8 ∉ encodePair pair := by
  rw [encodePair, List.mem_append, List.mem_cons]
  have hamp : '&'.toUInt8 ≠ '='.toUInt8 := by decide
  have hkey := (separators_not_mem_urlEncode pair.1).1
  have hvalue := (separators_not_mem_urlEncode pair.2).1
  exact not_or.2 ⟨hkey, not_or.2 ⟨hamp, hvalue⟩⟩

/-- A pair behind whose first `=` the value stands. -/
theorem parsePair_append {key : Text} (hkey : '='.toUInt8 ∉ key) (q : Query) (value : Text) :
    parsePair q (key ++ '='.toUInt8 :: value) =
      q.insertOrAssign (urlDecode key) (urlDecode value) := by
  have hnonempty : (key ++ '='.toUInt8 :: value).isEmpty = false := by simp
  rw [parsePair, hnonempty, if_neg Bool.false_ne_true]
  simp only [takeWhile_bne_append hkey, dropWhile_bne_append hkey]

theorem parsePair_encodePair (q : Query) (pair : Text × Text) :
    parsePair q (encodePair pair) = q.insertOrAssign pair.1 pair.2 := by
  rw [encodePair, parsePair_append (separators_not_mem_urlEncode pair.1).2, urlDecode_urlEncode,
    urlDecode_urlEncode]

/-- The pairs come out as they were joined, the empty list as one empty pair. -/
theorem splitOn_encodeQuery {pairs : List (Text × Text)} (h : pairs ≠ []) :
    (encodeQuery pairs).splitOn '&'.toUInt8 = pairs.map encodePair := by
  apply List.splitOn_intercalate
  · intro text htext
    obtain ⟨pair, -, rfl⟩ := List.mem_map.1 htext
    exact amp_not_mem_encodePair pair
  · simpa using h

/-- Assigning one pair after the other: the last pair of a key is found first from
the end. -/
theorem foldl_insertOrAssign (q : Query) (pairs : List (Text × Text)) (name : Text) :
    pairs.foldl (fun q pair => q.insertOrAssign pair.1 pair.2) q name =
      (pairs.reverse.lookup name).or (q name) := by
  induction pairs generalizing q with
  | nil => rfl
  | cons pair pairs ih =>
      obtain ⟨key, value⟩ := pair
      rw [List.foldl_cons, ih, List.reverse_cons, List.lookup_append]
      by_cases hname : name = key
      · cases pairs.reverse.lookup name <;>
          simp [Query.insertOrAssign, hname]
      · have hother : (name == key) = false := beq_false_of_ne hname
        cases pairs.reverse.lookup name <;>
          simp [Query.insertOrAssign, List.lookup_cons, hname, hother]

/-- An encoded query is parsed to the map of its pairs: each key has the value of
its last pair, and there is no other key. -/
theorem parseQuery_encodeQuery (pairs : List (Text × Text)) (name : Text) :
    parseQuery (encodeQuery pairs) name = pairs.reverse.lookup name := by
  by_cases hempty : pairs = []
  · subst hempty
    rfl
  · rw [parseQuery, splitOn_encodeQuery hempty, List.foldl_map]
    simp only [parsePair_encodePair]
    rw [foldl_insertOrAssign]
    exact Option.or_none

/-- A repeated key, an empty one, and bytes that have to be escaped. -/
example :
    (parseQuery (encodeQuery [(bytes "a&", bytes "1"), (bytes "a&", [0, 0xFF]), ([], bytes "+ ")])
      (bytes "a&")) = some [0, 0xFF] := by
  decide +kernel

end SSize
