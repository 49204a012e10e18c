import SSize.Catalog.Item

/-!
# Outbound links (`links.cpp`)
-/

namespace SSize

def kBase62 : Text := bytes "0123456789abcdefghijklmnopqrstuvwxyzABCDEFGHIJKLMNOPQRSTUVWXYZ"

def isUnreserved (c : UInt8) : Bool :=
  ('A'.toUInt8 ≤ c && c ≤ 'Z'.toUInt8) || ('a'.toUInt8 ≤ c && c ≤ 'z'.toUInt8) ||
    ('0'.toUInt8 ≤ c && c ≤ '9'.toUInt8) || c == '-'.toUInt8 || c == '_'.toUInt8 ||
    c == '.'.toUInt8 || c == '~'.toUInt8

def hexDigit (v : UInt8) : UInt8 :=
  if v < 10 then '0'.toUInt8 + v else 'A'.toUInt8 + (v - 10)

def urlEncode (s : Text) : Text :=
  s.flatMap fun c =>
    if isUnreserved c then [c] else ['%'.toUInt8, hexDigit (c >>> 4), hexDigit (c &&& 0x0F)]

def makeClickToken (raw : Vector UInt8 12) : Text :=
  raw.toList.map fun b => kBase62.getD (b.toNat % kBase62.length) 0

theorem makeClickToken_length (raw : Vector UInt8 12) : (makeClickToken raw).length = 12 := by
  simp [makeClickToken]

/-- A generated token is never the empty string that is stored as `NULL`. -/
theorem makeClickToken_ne_nil (raw : Vector UInt8 12) : makeClickToken raw ≠ [] := by
  intro hnil
  have hlength := makeClickToken_length raw
  simp [hnil] at hlength

structure LinkVars where
  url : Text
  subid : Text
  campaign : Text

/-- What stands for the placeholder of this name, itself when it is unknown. -/
def placeholder (vars : LinkVars) (name : Text) : Text :=
  if name = bytes "url" then vars.url
  else if name = bytes "url_enc" then urlEncode vars.url
  else if name = bytes "subid" then vars.subid
  else if name = bytes "campaign" then vars.campaign
  else '\x7b'.toUInt8 :: name ++ ['\x7d'.toUInt8]

/-- The loop of `render_link`. `skip` bytes belong to a placeholder that was
already rendered: after `name`, the source continues behind its closing brace. -/
def renderFrom (vars : LinkVars) : Nat → Text → Text
  | _, [] => []
  | skip + 1, _ :: rest => renderFrom vars skip rest
  | 0, c :: rest =>
      if c ≠ '\x7b'.toUInt8 then c :: renderFrom vars 0 rest
      else
        let name := rest.takeWhile (· != '\x7d'.toUInt8)
        -- No closing brace: the rest is copied verbatim.
        if name.length = rest.length then c :: rest
        else placeholder vars name ++ renderFrom vars (name.length + 1) rest

def renderLink (tmpl : Text) (vars : LinkVars) : Text := renderFrom vars 0 tmpl

def outboundUrl (item : Item) (partner : Partner) (clickToken : Text) : Text :=
  renderLink partner.linkTemplate
    { url := item.productUrl
      subid := clickToken
      campaign := item.campaign }

/-- A link that reaches the partner with its token and its target encoded. -/
example :
    renderLink (bytes "https://p/?u=\x7burl_enc\x7d&s=\x7bsubid\x7d\x7bx\x7d")
        { url := bytes "a/b", subid := bytes "T1", campaign := [] } =
      bytes "https://p/?u=a%2Fb&s=T1\x7bx\x7d" := by
  decide

end SSize
