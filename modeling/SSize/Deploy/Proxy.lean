import SSize.Handlers.Request
import Mathlib.Data.List.TakeWhile

/-!
# The address behind the proxy

`deploy/nginx-ssize.conf.snippet` hands on `$proxy_add_x_forwarded_for`: what the
client sent in its own `X-Forwarded-For`, a comma and a space, and the address of
the connection. `client_address` takes the first element, which is the client's
word as soon as the client says anything.
-/

namespace SSize

/-- `$remote_addr`: a numeric address, so without commas and spaces. -/
structure RemoteAddr where
  text : Text
  nonempty : text ≠ []
  plain : ∀ c ∈ text, c ≠ ','.toUInt8 ∧ c ≠ ' '.toUInt8

/-- `$proxy_add_x_forwarded_for`, where the client's header is `sent`. -/
def proxyAddXForwardedFor (remote : RemoteAddr) (sent : Option Text) : Text :=
  match sent with
  | none => remote.text
  | some value => value ++ bytes ", " ++ remote.text

/-- The request that nginx passes on. -/
def HttpRequest.proxied (req : HttpRequest) (remote : RemoteAddr) (sent : Option Text) :
    HttpRequest :=
  { req with xForwardedFor := proxyAddXForwardedFor remote sent }

/-- What `client_address` makes of a nonempty header. -/
def firstElement (header : Text) : Text :=
  (header.takeWhile (· != ','.toUInt8)).dropWhile (· == ' '.toUInt8)

theorem clientAddress_of_header {req : HttpRequest} {peer : Text} (h : req.xForwardedFor ≠ []) :
    clientAddress req peer = firstElement req.xForwardedFor := by
  rw [clientAddress, if_neg (by simpa using h)]
  rfl

theorem takeWhile_append_stop {p : UInt8 → Bool} {c : UInt8} (hc : p c = false) (xs ys : Text) :
    (xs ++ c :: ys).takeWhile p = xs.takeWhile p := by
  induction xs with
  | nil => rw [List.nil_append, List.takeWhile_cons, hc, List.takeWhile_nil]; rfl
  | cons x xs ih =>
      rw [List.cons_append, List.takeWhile_cons, List.takeWhile_cons, ih]

theorem RemoteAddr.firstElement_text (remote : RemoteAddr) :
    firstElement remote.text = remote.text := by
  have hcommas : remote.text.takeWhile (· != ','.toUInt8) = remote.text := by
    apply List.takeWhile_eq_self_iff.2
    intro c hc
    simpa using (remote.plain c hc).1
  rw [firstElement, hcommas]
  apply List.dropWhile_eq_self_iff.2
  intro hpos
  have hmem : remote.text[0] ∈ remote.text := List.getElem_mem hpos
  simpa using (remote.plain _ hmem).2

/-- The appended address comes after a comma, so it is never looked at. -/
theorem firstElement_proxied (remote : RemoteAddr) (value : Text) :
    firstElement (value ++ bytes ", " ++ remote.text) = firstElement value := by
  have hsplit : value ++ bytes ", " ++ remote.text =
      value ++ ','.toUInt8 :: (' '.toUInt8 :: remote.text) := by
    rw [List.append_assoc]
    rfl
  rw [firstElement, hsplit, takeWhile_append_stop (by decide)]
  rfl

theorem clientAddress_proxied (req : HttpRequest) (peer : Text) (remote : RemoteAddr)
    (sent : Option Text) :
    clientAddress (req.proxied remote sent) peer =
      match sent with
      | none => remote.text
      | some value => firstElement value := by
  cases sent with
  | none =>
      have hheader : (req.proxied remote none).xForwardedFor ≠ [] := remote.nonempty
      rw [clientAddress_of_header hheader]
      exact remote.firstElement_text
  | some value =>
      have hsome : (req.proxied remote (some value)).xForwardedFor ≠ [] := by
        simp [HttpRequest.proxied, proxyAddXForwardedFor, remote.nonempty]
      rw [clientAddress_of_header hsome]
      exact firstElement_proxied remote value

/-- Whatever `sent₁` and `sent₂` are, the same address is recorded for both, the
one nginx saw, and the same event is logged. -/
structure RecordsRemote (req : HttpRequest) (peer : Text) (remote : RemoteAddr)
    (sent₁ sent₂ : Option Text) : Prop where
  same : clientAddress (req.proxied remote sent₁) peer =
    clientAddress (req.proxied remote sent₂) peer
  seen : clientAddress (req.proxied remote sent₁) peer = remote.text
  logged : ∀ (lib : Library) (cfg : Config) (visit : Visit) (now : TsMs) (ev : Event),
    logEvent lib cfg { visit with clientIp := clientAddress (req.proxied remote sent₁) peer }
        now ev =
      logEvent lib cfg { visit with clientIp := clientAddress (req.proxied remote sent₂) peer }
        now ev

/-- The client sent no header, or one whose first element is its own address. -/
def NamesItself (remote : RemoteAddr) (sent : Option Text) : Prop :=
  ∀ value ∈ sent, firstElement value = remote.text

instance (remote : RemoteAddr) (sent : Option Text) : Decidable (NamesItself remote sent) :=
  inferInstanceAs (Decidable (∀ value ∈ sent, _))

theorem clientAddress_remote_iff (req : HttpRequest) (peer : Text) (remote : RemoteAddr)
    (sent : Option Text) :
    clientAddress (req.proxied remote sent) peer = remote.text ↔ NamesItself remote sent := by
  rw [clientAddress_proxied, NamesItself]
  cases sent <;> simp

/-- Two requests of one visitor are recorded under the address nginx saw exactly
when neither of them claims another one. -/
theorem recordsRemote_iff (req : HttpRequest) (peer : Text) (remote : RemoteAddr)
    (sent₁ sent₂ : Option Text) :
    RecordsRemote req peer remote sent₁ sent₂ ↔
      NamesItself remote sent₁ ∧ NamesItself remote sent₂ := by
  rw [← clientAddress_remote_iff req peer, ← clientAddress_remote_iff req peer]
  constructor
  · intro h
    exact ⟨h.seen, h.same ▸ h.seen⟩
  · rintro ⟨h₁, h₂⟩
    refine ⟨h₁.trans h₂.symm, h₁, fun lib cfg visit now ev => ?_⟩
    rw [h₁, h₂]

def testNet : RemoteAddr where
  text := bytes "203.0.113.7"
  nonempty := by decide
  plain := by decide +kernel

/-- A visitor who sends `X-Forwarded-For: 1.2.3.4`, and without the header. -/
theorem visitor_chooses_address :
    ¬ ∀ (req : HttpRequest) (peer : Text) (remote : RemoteAddr) (sent₁ sent₂ : Option Text),
      RecordsRemote req peer remote sent₁ sent₂ := by
  intro h
  have hrecords := h {} (bytes "127.0.0.1") testNet (some (bytes "1.2.3.4")) none
  exact absurd hrecords.seen (by decide)

end SSize
