import ProviderKit.Proofs.Json.Texts

-- Texts are ordered by code point. That is the order of their UTF-8 bytes: the bytes of a later
-- character are later, whatever follows.

namespace ProviderKit.Bytes

/-! ## Characters -/

/-- Bytes compare by the first two that differ. -/
theorem cons_ofNat_lt {n m : Nat} {xs ys : Bytes} (hm : m < 256) (hle : n ≤ m)
    (h : n = m → xs < ys) : UInt8.ofNat n :: xs < UInt8.ofNat m :: ys := by
  rw [List.cons_lt_cons_iff]
  by_cases hnm : n = m
  · right
    exact ⟨by rw [hnm], h hnm⟩
  · left
    rw [UInt8.lt_iff_toNat_lt, UInt8.toNat_ofNat', UInt8.toNat_ofNat']
    omega

/-- Of two characters, the one with fewer bytes has the smaller first byte; where both have as many,
their bytes are the digits of their code points. -/
theorem utf8EncodeChar_append_lt {c d : Char} (h : c < d) (xs ys : Bytes) :
    String.utf8EncodeChar c ++ xs < String.utf8EncodeChar d ++ ys := by
  have hcd : c.val.toNat < d.val.toNat := h
  have hd : d.val.toNat < 1114112 := by
    have hvalid := d.valid
    simp only [UInt32.isValidChar, Nat.isValidChar] at hvalid
    omega
  unfold String.utf8EncodeChar
  dsimp only
  by_cases hd1 : d.val.toNat ≤ 127
  · rw [if_pos hd1, if_pos (show c.val.toNat ≤ 127 by omega)]
    exact cons_ofNat_lt (by omega) (by omega) fun h1 => by omega
  rw [if_neg hd1]
  by_cases hc1 : c.val.toNat ≤ 127
  · rw [if_pos hc1]
    split
    · exact cons_ofNat_lt (by omega) (by omega) fun h1 => by omega
    · split
      · exact cons_ofNat_lt (by omega) (by omega) fun h1 => by omega
      · exact cons_ofNat_lt (by omega) (by omega) fun h1 => by omega
  rw [if_neg hc1]
  by_cases hd2 : d.val.toNat ≤ 2047
  · rw [if_pos hd2, if_pos (show c.val.toNat ≤ 2047 by omega)]
    apply cons_ofNat_lt (by omega) (by omega)
    intro h1
    apply cons_ofNat_lt (by omega) (by omega)
    intro h2
    omega
  rw [if_neg hd2]
  by_cases hc2 : c.val.toNat ≤ 2047
  · rw [if_pos hc2]
    split
    · exact cons_ofNat_lt (by omega) (by omega) fun h1 => by omega
    · exact cons_ofNat_lt (by omega) (by omega) fun h1 => by omega
  rw [if_neg hc2]
  by_cases hd3 : d.val.toNat ≤ 65535
  · rw [if_pos hd3, if_pos (show c.val.toNat ≤ 65535 by omega)]
    apply cons_ofNat_lt (by omega) (by omega)
    intro h1
    apply cons_ofNat_lt (by omega) (by omega)
    intro h2
    apply cons_ofNat_lt (by omega) (by omega)
    intro h3
    omega
  rw [if_neg hd3]
  by_cases hc3 : c.val.toNat ≤ 65535
  · rw [if_pos hc3]
    exact cons_ofNat_lt (by omega) (by omega) fun h1 => by omega
  rw [if_neg hc3]
  apply cons_ofNat_lt (by omega) (by omega)
  intro h1
  apply cons_ofNat_lt (by omega) (by omega)
  intro h2
  apply cons_ofNat_lt (by omega) (by omega)
  intro h3
  apply cons_ofNat_lt (by omega) (by omega)
  intro h4
  omega

/-! ## Texts -/

theorem ofChars_lt {cs ds : List Char} (h : cs < ds) : ofChars cs < ofChars ds := by
  induction cs generalizing ds with
  | nil =>
    cases ds with
    | nil => simp at h
    | cons d ds =>
      rw [ofChars_cons]
      cases hbytes : String.utf8EncodeChar d with
      | nil => simp at hbytes
      | cons b bs => simp
  | cons c cs ih =>
    cases ds with
    | nil => simp at h
    | cons d ds =>
      rw [ofChars_cons, ofChars_cons]
      rcases List.cons_lt_cons_iff.mp h with hcd | ⟨rfl, hrest⟩
      · exact utf8EncodeChar_append_lt hcd _ _
      · exact List.append_left_lt (ih hrest)

/-- Of two texts, the one that comes first by code point comes first by its bytes. -/
theorem ofText_le_iff (s t : String) : ofText s ≤ ofText t ↔ ¬ t < s := by
  rw [ofText_eq_ofChars, ofText_eq_ofChars, String.lt_iff]
  constructor
  · intro h hts
    exact h (ofChars_lt hts)
  · intro h hbytes
    rcases Std.lt_trichotomy s.toList t.toList with hlt | heq | hgt
    · exact List.lt_irrefl _ (List.lt_trans hbytes (ofChars_lt hlt))
    · rw [heq] at hbytes
      exact List.lt_irrefl _ hbytes
    · exact h hgt

end ProviderKit.Bytes
