import SSize.Handlers.Postback
import Mathlib.Data.List.Infix

/-!
# Reading a request (`handlers.cpp`, helpers)

`find` on a `string_view` is `takeWhile` and `dropWhile` up to the byte looked
for; the loops that cut a text at a separator go over `splitOn`.
-/

namespace SSize

def hexValue (c : UInt8) : Option UInt8 :=
  if '0'.toUInt8 ≤ c && c ≤ '9'.toUInt8 then some (c - '0'.toUInt8)
  else if 'a'.toUInt8 ≤ c && c ≤ 'f'.toUInt8 then some (c - 'a'.toUInt8 + 10)
  else if 'A'.toUInt8 ≤ c && c ≤ 'F'.toUInt8 then some (c - 'A'.toUInt8 + 10)
  else none

/-- The loop of `url_decode`. A `%` needs two more bytes behind it. -/
def urlDecode : Text → Text
  | [] => []
  | c :: hi :: lo :: rest =>
      if c = '+'.toUInt8 then ' '.toUInt8 :: urlDecode (hi :: lo :: rest)
      else if c = '%'.toUInt8 then
        match hexValue hi, hexValue lo with
        | some h, some l => (h * 16 + l) :: urlDecode rest
        | _, _ => c :: urlDecode (hi :: lo :: rest)
      else c :: urlDecode (hi :: lo :: rest)
  | c :: rest => (if c = '+'.toUInt8 then ' '.toUInt8 else c) :: urlDecode rest

/-- `map.emplace(k, v)`: a value already there stays. -/
def Query.emplace (q : Query) (k v : Text) : Query :=
  fun name => if name = k then some ((q k).getD v) else q name

def Query.insertOrAssign (q : Query) (k v : Text) : Query :=
  fun name => if name = k then some v else q name

def parsePair (q : Query) (pair : Text) : Query :=
  if pair.isEmpty then q
  else
    let key := pair.takeWhile (· != '='.toUInt8)
    match pair.dropWhile (· != '='.toUInt8) with
    | [] => q.emplace (urlDecode pair) []
    | _ :: value => q.insertOrAssign (urlDecode key) (urlDecode value)

def parseQuery (qs : Text) : Query :=
  (qs.splitOn '&'.toUInt8).foldl parsePair (.ofList [])

/-- The first `name=value` of the header. The spaces before a pair are skipped. -/
def cookieValue (header name : Text) : Text :=
  let pairs := (header.splitOn ';'.toUInt8).map fun pair => pair.dropWhile (· == ' '.toUInt8)
  let values := pairs.filterMap fun pair =>
    match pair.dropWhile (· != '='.toUInt8) with
    | [] => none
    | _ :: value => if pair.takeWhile (· != '='.toUInt8) = name then some value else none
  values.headD []

def splitTarget (target : Text) : Text × Text :=
  (target.takeWhile (· != '?'.toUInt8), (target.dropWhile (· != '?'.toUInt8)).drop 1)

def isDigit (c : UInt8) : Bool := '0'.toUInt8 ≤ c && c ≤ '9'.toUInt8

def digitsValue (digits : Text) : Int :=
  digits.foldl (fun v c => v * 10 + ((c - '0'.toUInt8).toNat : Int)) 0

/-- `from_chars` into an `int64` that has to use up the whole text. -/
def parseInt (s : Text) : Option Int :=
  let negative := s.head? = some '-'.toUInt8
  let digits := if negative then s.drop 1 else s
  if digits.isEmpty || !digits.all isDigit then none
  else
    let v := if negative then -digitsValue digits else digitsValue digits
    if -2 ^ 63 ≤ v ∧ v < 2 ^ 63 then some v else none

def toText (n : Int) : Text :=
  let digits := (Nat.toDigits 10 n.natAbs).map Char.toUInt8
  if n < 0 then '-'.toUInt8 :: digits else digits

def afterScheme : Text → Option Text
  | [] => none
  | c :: rest =>
      if (bytes "://").isPrefixOf (c :: rest) then some (rest.drop 2) else afterScheme rest

/-- `utm_source` if present, else the referrer's host, else `direct`. -/
def visitSource (q : Query) (referer : Text) : Text :=
  match q (bytes "utm_source") with
  | some (c :: rest) => c :: rest
  | _ =>
      if referer.isEmpty then bytes "direct"
      else ((afterScheme referer).getD referer).takeWhile (· != '/'.toUInt8)

def toLower (c : UInt8) : UInt8 :=
  if 'A'.toUInt8 ≤ c && c ≤ 'Z'.toUInt8 then c + 32 else c

def kBotMarkers : List Text :=
  ["bot", "crawler", "spider", "slurp", "curl", "wget", "python-requests", "headlesschrome",
    "yandex.com/bots", "facebookexternalhit", "preview"].map bytes

def kMobileMarkers : List Text :=
  ["mobile", "android", "iphone", "ipad", "ipod", "opera mini"].map bytes

def classifyUa (userAgent : Text) : Text :=
  let ua := userAgent.map toLower
  if kBotMarkers.any fun marker => decide (marker <:+: ua) then bytes "bot"
  else if kMobileMarkers.any fun marker => decide (marker <:+: ua) then bytes "mobile"
  else if ua.isEmpty then bytes "bot"
  else bytes "desktop"

end SSize
