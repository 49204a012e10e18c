import SSize.Text
import Mathlib.Data.List.Count

/-!
# Character references

`decode` replaces the references of a text by what they stand for. Which references
there are is a parameter, as the table of their names is a long one. What is used of
it: a reference has a name or a number, only references to the ampersand itself yield
one, and nothing else with it, and none yields U+0000.
-/

namespace SSize.Lib

structure References where
  /-- What the reference stands for that the text continues behind `&`, and how many
  more bytes belong to it. -/
  read : Text → Option (Text × Nat)
  ampersand : ∀ {rest shown n}, read rest = some (shown, n) →
    '&'.toUInt8 ∉ shown ∨ shown = ['&'.toUInt8]
  visible : ∀ {rest shown n}, read rest = some (shown, n) → 0 ∉ shown
  consumes : ∀ {rest shown n}, read rest = some (shown, n) → 0 < n ∧ n ≤ rest.length

namespace References

variable (refs : References)

/-- The loop of `decode`, with so many bytes still to be skipped. -/
def decodeFrom : Nat → Text → Text
  | _, [] => []
  | n + 1, _ :: rest => decodeFrom n rest
  | 0, c :: rest =>
      if c = '&'.toUInt8 then
        match refs.read rest with
        | none => c :: decodeFrom 0 rest
        | some (shown, n) => shown ++ decodeFrom n rest
      else c :: decodeFrom 0 rest

def decode (x : Text) : Text := refs.decodeFrom 0 x

/-- No reference in it. -/
def Literal (x : Text) : Prop :=
  ∀ rest, ('&'.toUInt8 :: rest) <:+ x → refs.read rest = none

theorem visible_decodeFrom (n : Nat) {x : Text} (h : 0 ∉ x) : 0 ∉ refs.decodeFrom n x := by
  induction x generalizing n with
  | nil => exact List.not_mem_nil
  | cons c x ih =>
      obtain ⟨hc, hx⟩ := not_or.1 (mt List.mem_cons.2 h)
      cases n with
      | succ n => exact ih n hx
      | zero =>
          have hkept : 0 ∉ c :: refs.decodeFrom 0 x :=
            mt List.mem_cons.1 (not_or.2 ⟨hc, ih 0 hx⟩)
          rw [decodeFrom]
          split
          · split
            · exact hkept
            · next shown n hread =>
                rw [List.mem_append]
                exact not_or.2 ⟨refs.visible hread, ih n hx⟩
          · exact hkept

/-- An ampersand is never added, and where none is used up the text does not get
longer. -/
theorem decodeFrom_le (n : Nat) (x : Text) :
    (refs.decodeFrom n x).count '&'.toUInt8 ≤ x.count '&'.toUInt8 ∧
      ((refs.decodeFrom n x).count '&'.toUInt8 = x.count '&'.toUInt8 →
        (refs.decodeFrom n x).length ≤ x.length) := by
  induction x generalizing n with
  | nil => exact ⟨Nat.le_refl _, fun _ => Nat.le_refl _⟩
  | cons c x ih =>
      cases n with
      | succ n =>
          obtain ⟨hle, hlength⟩ := ih n
          rw [decodeFrom, List.count_cons, List.length_cons]
          constructor
          · omega
          · intro hsame
            have hsame' : (refs.decodeFrom n x).count '&'.toUInt8 = x.count '&'.toUInt8 := by omega
            exact Nat.le_succ_of_le (hlength hsame')
      | zero =>
          have hkept : (c :: refs.decodeFrom 0 x).count '&'.toUInt8 ≤ (c :: x).count '&'.toUInt8 ∧
              ((c :: refs.decodeFrom 0 x).count '&'.toUInt8 = (c :: x).count '&'.toUInt8 →
                (c :: refs.decodeFrom 0 x).length ≤ (c :: x).length) := by
            obtain ⟨hle, hlength⟩ := ih 0
            rw [List.count_cons, List.count_cons, List.length_cons, List.length_cons]
            exact ⟨by omega, fun hsame => Nat.succ_le_succ (hlength (by omega))⟩
          rw [decodeFrom]
          split
          · next hamp =>
              split
              · exact hkept
              · next shown n hread =>
                  obtain ⟨hle, hlength⟩ := ih n
                  rw [hamp, List.count_append, List.count_cons_self, List.length_append,
                    List.length_cons]
                  rcases refs.ampersand hread with hnone | hself
                  · rw [List.count_eq_zero.2 hnone]
                    exact ⟨by omega, fun hsame => by omega⟩
                  · have hone : shown.count '&'.toUInt8 = 1 := by rw [hself]; rfl
                    have hlengthOne : shown.length = 1 := by rw [hself]; rfl
                    refine ⟨by omega, fun hsame => ?_⟩
                    have hrest := hlength (by omega)
                    omega
          · exact hkept

/-- So no text decodes to itself with more behind it. -/
theorem decode_ne_append (x : Text) {u y : Text}
    (hcount : x.count '&'.toUInt8 ≤ u.count '&'.toUInt8) (hlength : x.length ≤ u.length)
    (hy : y ≠ []) : refs.decode x ≠ u ++ y := by
  intro hdecode
  obtain ⟨hle, hshort⟩ := refs.decodeFrom_le 0 x
  have hpos := List.length_pos_iff.2 hy
  have hmore : u.count '&'.toUInt8 ≤ (refs.decode x).count '&'.toUInt8 := by
    rw [hdecode, List.count_append]
    omega
  have hlonger : (refs.decode x).length = u.length + y.length := by
    rw [hdecode, List.length_append]
  unfold decode at hmore hlonger
  have hsame : (refs.decodeFrom 0 x).count '&'.toUInt8 = x.count '&'.toUInt8 := by omega
  have hbound := hshort hsame
  omega

/-! ## Texts without references -/

variable {refs} {c : UInt8} {x : Text}

theorem literal_cons (h : c = '&'.toUInt8 → refs.read x = none) (hx : refs.Literal x) :
    refs.Literal (c :: x) := by
  intro rest hsuffix
  rcases List.suffix_cons_iff.1 hsuffix with heq | hsuffix
  · obtain ⟨rfl, rfl⟩ := List.cons.inj heq
    exact h rfl
  · exact hx rest hsuffix

theorem Literal.of_cons (h : refs.Literal (c :: x)) :
    (c = '&'.toUInt8 → refs.read x = none) ∧ refs.Literal x := by
  constructor
  · rintro rfl
    exact h x List.suffix_rfl
  · intro rest hsuffix
    exact h rest (hsuffix.trans (List.suffix_cons c x))

theorem Literal.decode (h : refs.Literal x) : refs.decode x = x := by
  induction x with
  | nil => rfl
  | cons c x ih =>
      obtain ⟨hc, hx⟩ := h.of_cons
      have hrest : refs.decodeFrom 0 x = x := ih hx
      rw [References.decode, decodeFrom]
      split
      · next hamp => rw [hc hamp, hrest]
      · rw [hrest]

variable (refs)

/-- Where bytes are skipped and no ampersand is lost, the text gets shorter. -/
theorem decodeFrom_lt {n : Nat} (hpos : 0 < n) (hn : n ≤ x.length)
    (hcount : (refs.decodeFrom n x).count '&'.toUInt8 = x.count '&'.toUInt8) :
    (refs.decodeFrom n x).length < x.length := by
  cases n with
  | zero => exact absurd hpos (Nat.lt_irrefl 0)
  | succ n =>
      cases x with
      | nil => exact absurd hn (Nat.not_succ_le_zero n)
      | cons c x =>
          obtain ⟨hle, hshort⟩ := refs.decodeFrom_le n x
          have hmore : x.count '&'.toUInt8 ≤ (c :: x).count '&'.toUInt8 := List.count_le_count_cons
          rw [decodeFrom] at hcount ⊢
          exact Nat.lt_succ_of_le (hshort (by omega))

/-- A reference that is read costs an ampersand or bytes. -/
theorem literal_of_decode (hcount : (refs.decode x).count '&'.toUInt8 = x.count '&'.toUInt8)
    (hlength : x.length ≤ (refs.decode x).length) : refs.Literal x := by
  unfold References.decode at hcount hlength
  induction x with
  | nil => exact fun rest hsuffix => by simp at hsuffix
  | cons c x ih =>
      rw [decodeFrom] at hcount hlength
      split at hcount
      · next hamp =>
          rw [if_pos hamp] at hlength
          rw [hamp, List.count_cons_self] at hcount
          cases hread : refs.read x with
          | none =>
              rw [hread] at hcount hlength
              simp only [List.count_cons_self, List.length_cons] at hcount hlength
              exact literal_cons (fun _ => hread) (ih (by omega) (by omega))
          | some found =>
              obtain ⟨shown, n⟩ := found
              obtain ⟨hpos, hn⟩ := refs.consumes hread
              have hle := (refs.decodeFrom_le n x).1
              rw [hread] at hcount hlength
              simp only [List.count_append, List.length_append, List.length_cons] at hcount hlength
              rcases refs.ampersand hread with hnone | hself
              · rw [List.count_eq_zero.2 hnone] at hcount
                omega
              · have hone : shown.count '&'.toUInt8 = 1 := by rw [hself]; rfl
                have hlengthOne : shown.length = 1 := by rw [hself]; rfl
                have hshorter := refs.decodeFrom_lt hpos hn (by omega)
                omega
      · next hamp =>
          rw [if_neg hamp] at hlength
          rw [List.count_cons_of_ne hamp, List.count_cons_of_ne hamp] at hcount
          simp only [List.length_cons] at hlength
          exact literal_cons (fun h => absurd h hamp) (ih hcount (by omega))

end References

end SSize.Lib
