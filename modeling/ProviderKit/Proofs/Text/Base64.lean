import ProviderKit.Text.Base64

-- Every byte string is read back from its Base64 spelling.

namespace ProviderKit.Base64

/-! ## Digits -/

theorem value?_digit : ∀ n < 64, value? (digit n) = some n := by decide

theorem digit_ne_padding : ∀ n < 64, digit n ≠ '=' := by decide

/-! ## Groups -/

/-- A full group of four digits, none of which is padding. -/
theorem decode_group {p q r s : Nat} (hp : p < 64) (hq : q < 64) (hr : r < 64) (hs : s < 64)
    (rest : List Char) :
    decode (digit p :: digit q :: digit r :: digit s :: rest) =
      (decode rest).map fun bytes =>
        UInt8.ofNat (p * 4 + q / 16) :: UInt8.ofNat (q % 16 * 16 + r / 4)
          :: UInt8.ofNat (r % 4 * 64 + s) :: bytes := by
  have hnot : ¬ (digit s = '=' ∧ rest = []) := fun h => digit_ne_padding s hs h.1
  rw [decode, if_neg hnot, value?_digit p hp, value?_digit q hq, value?_digit r hr,
    value?_digit s hs]
  cases decode rest <;> rfl

theorem decode_pairPadded {p q : Nat} (hp : p < 64) (hq : q < 64) :
    decode [digit p, digit q, '=', '='] = decodeOne p q := by
  rw [decode, if_pos ⟨rfl, rfl⟩, if_pos rfl, value?_digit p hp, value?_digit q hq]
  rfl

theorem decode_triplePadded {p q r : Nat} (hp : p < 64) (hq : q < 64) (hr : r < 64) :
    decode [digit p, digit q, digit r, '='] = decodeTwo p q r := by
  rw [decode, if_pos ⟨rfl, rfl⟩, if_neg (digit_ne_padding r hr), value?_digit p hp,
    value?_digit q hq, value?_digit r hr]
  rfl

theorem ofNat_eq_of_toNat_eq {b : UInt8} {n : Nat} (h : n = b.toNat) : UInt8.ofNat n = b := by
  rw [h, UInt8.ofNat_toNat]

/-! ## Byte strings -/

theorem decode_encode (bytes : Bytes) : decode (encode bytes) = some bytes := by
  induction bytes using encode.induct with
  | case1 => rfl
  | case2 a =>
    have ha := a.toNat_lt
    rw [encode, decode_pairPadded (by omega) (by omega), decodeOne, if_pos (by omega),
      ofNat_eq_of_toNat_eq (b := a) (by omega)]
  | case3 a b =>
    have ha := a.toNat_lt
    have hb := b.toNat_lt
    rw [encode, decode_triplePadded (by omega) (by omega) (by omega), decodeTwo,
      if_pos (by omega), ofNat_eq_of_toNat_eq (b := a) (by omega),
      ofNat_eq_of_toNat_eq (b := b) (by omega)]
  | case4 a b c rest ih =>
    have ha := a.toNat_lt
    have hb := b.toNat_lt
    have hc := c.toNat_lt
    rw [encode, decode_group (by omega) (by omega) (by omega) (by omega), ih, Option.map_some,
      ofNat_eq_of_toNat_eq (b := a) (by omega), ofNat_eq_of_toNat_eq (b := b) (by omega),
      ofNat_eq_of_toNat_eq (b := c) (by omega)]

end ProviderKit.Base64
