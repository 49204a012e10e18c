import SSize.Handlers.Request

/-!
# The hash of an address (`hash_ip` in `events.cpp`)

BLAKE2b is not in the repository. It is a parameter, and what is used of it is that
no key gives all inputs the same digest. `crypto_generichash` takes a key of at most
64 bytes; for a longer one it fails and leaves its output as it was, and `hash_ip`
does not look at what it returns.
-/

namespace SSize

def cryptoGenerichashBytesMin : Nat := 16

def cryptoGenerichashKeybytesMax : Nat := 64

-- BLAKE2b with a digest of so many bytes, under a key, of an input.
variable (blake2b : Nat → Text → Text → List UInt8)

/-- `crypto_generichash`: what it returns and what is in `out` afterwards. -/
def cryptoGenerichash (out : List UInt8) (input key : Text) : Int × List UInt8 :=
  if key.length > cryptoGenerichashKeybytesMax then (-1, out)
  else (0, blake2b out.length key input)

def hashIp (ip secret : Text) : List UInt8 :=
  let out := List.replicate cryptoGenerichashBytesMin 0
  (cryptoGenerichash blake2b out ip secret).2

/-- The digest depends on its input, whatever the key. -/
def DigestVaries : Prop :=
  ∀ key : Text, key ≠ [] → key.length ≤ cryptoGenerichashKeybytesMax →
    ∃ ip ip', blake2b cryptoGenerichashBytesMin key ip ≠ blake2b cryptoGenerichashBytesMin key ip'

/-- Under this secret addresses are hashed with the key, so addresses with two digests
have two hashes. -/
structure KeyedBy (secret key : Text) : Prop where
  nonempty : key ≠ []
  short : key.length ≤ cryptoGenerichashKeybytesMax
  hash : ∀ ip, hashIp blake2b ip secret = blake2b cryptoGenerichashBytesMin key ip
  separates : ∀ ip ip', blake2b cryptoGenerichashBytesMin key ip ≠
    blake2b cryptoGenerichashBytesMin key ip' → hashIp blake2b ip secret ≠ hashIp blake2b ip' secret

variable {blake2b} {secret : Text}

theorem hashIp_short (h : secret.length ≤ 64) (ip : Text) :
    hashIp blake2b ip secret = blake2b cryptoGenerichashBytesMin secret ip := by
  have hlength : ¬ secret.length > cryptoGenerichashKeybytesMax := not_lt.2 h
  simp [hashIp, cryptoGenerichash, hlength]

/-- The error is lost, and all addresses look alike. -/
theorem hashIp_long (h : 64 < secret.length) (ip : Text) :
    hashIp blake2b ip secret = List.replicate cryptoGenerichashBytesMin 0 := by
  have hlength : secret.length > cryptoGenerichashKeybytesMax := h
  simp [hashIp, cryptoGenerichash, hlength]

theorem keyedBy_self (hne : secret ≠ []) (h : secret.length ≤ 64) :
    KeyedBy blake2b secret secret where
  nonempty := hne
  short := h
  hash := hashIp_short h
  separates ip ip' hdigest := by
    rw [hashIp_short h, hashIp_short h]
    exact hdigest

theorem not_keyedBy (hvaries : DigestVaries blake2b) (h : 64 < secret.length) (key : Text) :
    ¬ KeyedBy blake2b secret key := by
  intro hkeyed
  obtain ⟨ip, ip', hdigest⟩ := hvaries key hkeyed.nonempty hkeyed.short
  apply hkeyed.separates ip ip' hdigest
  calc hashIp blake2b ip secret = List.replicate cryptoGenerichashBytesMin 0 := hashIp_long h ip
    _ = hashIp blake2b ip' secret := (hashIp_long h ip').symm

/-- The events of all visitors carry one hash when the secret is too long for a key. -/
theorem logEvent_ipHash_long {lib : Library} (hlib : lib.hashIp = hashIp blake2b) {cfg : Config}
    (h : 64 < cfg.ipHashSecret.length) (visit : Visit) (now : TsMs) (ev : Event) :
    ∃ logged, logEvent lib cfg visit now ev = .event logged ∧
      logged.ipHash = List.replicate cryptoGenerichashBytesMin 0 := by
  refine ⟨_, rfl, ?_⟩
  rw [hlib]
  exact hashIp_long h visit.clientIp

/-- Addresses are hashed with a key exactly under the secrets that are no longer than one. -/
theorem hashIp_keyed_iff (hvaries : DigestVaries blake2b) (hne : secret ≠ []) :
    (∃ key, KeyedBy blake2b secret key) ↔ secret.length ≤ 64 := by
  constructor
  · rintro ⟨key, hkeyed⟩
    by_contra hlong
    exact not_keyedBy hvaries (not_le.1 hlong) key hkeyed
  · exact fun hshort => ⟨secret, keyedBy_self hne hshort⟩

/-- The digests of two addresses under the key `secret`, and some others. -/
def twoDigests (n : Nat) (key ip : Text) : List UInt8 :=
  if key = bytes "secret" ∧ ip = bytes "192.0.2.1" then
    [174, 102, 200, 37, 0, 71, 156, 199, 216, 219, 194, 156, 64, 222, 50, 120].take n
  else if key = bytes "secret" ∧ ip = bytes "192.0.2.2" then
    [242, 72, 170, 239, 149, 243, 133, 14, 121, 31, 66, 140, 159, 57, 224, 207].take n
  else (ip ++ List.replicate n 0).take n

theorem twoDigests_vary : DigestVaries twoDigests := by
  intro key _ _
  have hshort : ∀ c : UInt8, [c] ≠ bytes "192.0.2.1" ∧ [c] ≠ bytes "192.0.2.2" := by
    intro c
    have hfirst : (bytes "192.0.2.1").length = 9 := by decide
    have hsecond : (bytes "192.0.2.2").length = 9 := by decide
    constructor
    · intro h
      have hlength := congrArg List.length h
      rw [hfirst, List.length_singleton] at hlength
      omega
    · intro h
      have hlength := congrArg List.length h
      rw [hsecond, List.length_singleton] at hlength
      omega
  have hother : ∀ c : UInt8, twoDigests cryptoGenerichashBytesMin key [c] =
      c :: List.replicate 15 0 := by
    intro c
    rw [twoDigests, if_neg fun h => (hshort c).1 h.2, if_neg fun h => (hshort c).2 h.2]
    rfl
  refine ⟨[1], [2], ?_⟩
  rw [hother, hother]
  decide

/-- The secret of the tests. -/
theorem hashIp_keyed_secret : ∃ key, KeyedBy twoDigests (bytes "secret") key :=
  (hashIp_keyed_iff twoDigests_vary (by decide)).2 (by decide)

/-- A secret of 65 bytes, which `load_config` accepts. -/
theorem hashIp_not_keyed :
    ¬ ∃ key, KeyedBy twoDigests (List.replicate 65 'a'.toUInt8) key := by
  rintro ⟨key, hkeyed⟩
  exact not_keyedBy twoDigests_vary (by decide) key hkeyed

end SSize
