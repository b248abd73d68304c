import Mathlib.Data.List.Induction
import Mathlib.Data.List.TakeWhile
import Mathlib.Data.Nat.Digits.Defs
import ProviderKit.Reconcile.DecimalText

-- The grammar of decimals written as text, apart from how they are read. What is read is a numeral,
-- and of a numeral the parts are read that it is put together from.

namespace ProviderKit.DecimalText

/-! ## Digits -/

/-- What a digit counts for. -/
def digitOf (c : Char) : Nat := c.toNat - 48

/-- What digits count for, the last one first. -/
def digitsOf (xs : List Char) : List Nat := xs.reverse.map digitOf

/-- What digits count for together, to the base ten. -/
def countOf (xs : List Char) : Nat := Nat.ofDigits 10 (digitsOf xs)

theorem countOf_append_singleton (xs : List Char) (c : Char) :
    countOf (xs ++ [c]) = digitOf c + 10 * countOf xs := by
  rw [countOf, digitsOf, List.reverse_concat, List.map_cons, Nat.ofDigits_cons]
  rfl

theorem natOf_eq_countOf (xs : List Char) : natOf xs = countOf xs := by
  induction xs using List.reverseRecOn with
  | nil => rfl
  | append_singleton xs c ih =>
    have hnat : natOf (xs ++ [c]) = natOf xs * 10 + digitOf c := by
      rw [natOf, List.foldl_append]
      rfl
    rw [hnat, ih, countOf_append_singleton]
    omega

/-! ## Zeros at the end -/

/-- What is cut off at the right is a run of zeros. -/
theorem trimZerosRight_append_zeros (xs : List Char) : trimZerosRight xs ++
    List.replicate (xs.reverse.takeWhile (· = '0')).length '0' = xs := by
  have hzeros : xs.reverse.takeWhile (· = '0') =
      List.replicate (xs.reverse.takeWhile (· = '0')).length '0' :=
    List.eq_replicate_of_mem fun c hc => by simpa using List.mem_takeWhile_imp hc
  unfold trimZerosRight
  rw [← List.reverse_replicate, ← hzeros, ← List.reverse_append,
    List.takeWhile_append_dropWhile, List.reverse_reverse]

theorem length_trimZerosRight (xs : List Char) :
    xs.length - (trimZerosRight xs).length = (xs.reverse.takeWhile (· = '0')).length := by
  have hlength := congrArg List.length (trimZerosRight_append_zeros xs)
  rw [List.length_append, List.length_replicate] at hlength
  omega

/-! ## The grammar -/

/-- What may stand in front of a number. -/
inductive Sign where
  | bare
  | plus
  | minus

namespace Sign

def text : Sign → List Char
  | bare => []
  | plus => ['+']
  | minus => ['-']

def isNegative : Sign → Bool
  | minus => true
  | _ => false

end Sign

/-- A power of ten: a letter and an integer. -/
structure Power where
  letter : Char
  sign : Sign
  digits : List Char
  isLetter : letter = 'e' ∨ letter = 'E'
  isDigits : digits.all isDigit
  nonempty : digits ≠ []

namespace Power

def text (p : Power) : List Char := p.letter :: (p.sign.text ++ p.digits)

def exponent (p : Power) : Int :=
  if p.sign.isNegative then -(countOf p.digits : Int) else countOf p.digits

end Power

/-- A decimal as it may be written: a sign, digits before a point and, if there is a point, after
it, and a power of ten. There is at least one digit in all. -/
structure Numeral where
  sign : Sign
  whole : List Char
  fraction : Option (List Char)
  power : Option Power
  isDigits : (whole ++ fraction.getD []).all isDigit
  nonempty : whole ++ fraction.getD [] ≠ []

namespace Numeral

/-- The digits on both sides of the point. -/
def digits (m : Numeral) : List Char := m.whole ++ m.fraction.getD []

/-- The digits and the point. -/
def mantissa (m : Numeral) : List Char := m.whole ++ m.fraction.elim [] ('.' :: ·)

def text (m : Numeral) : List Char := m.sign.text ++ (m.mantissa ++ m.power.elim [] Power.text)

/-- The power of ten that is written, or zero. -/
def exponent (m : Numeral) : Int := m.power.elim 0 Power.exponent

end Numeral

/-! ## Splitting texts -/

variable {p : Char → Bool} {cs xs ys us vs : List Char} {a c : Char}

theorem ne_of_isDigit (hc : isDigit c = true) (ha : isDigit a = false) : c ≠ a := by
  rintro rfl
  exact Bool.noConfusion (hc.symm.trans ha)

theorem splitSign_text (s : Sign) (h : ∀ c ∈ xs.head?, c ≠ '+' ∧ c ≠ '-') :
    splitSign (s.text ++ xs) = (s.isNegative, xs) := by
  cases s with
  | plus | minus => rfl
  | bare =>
    cases xs with
    | nil => rfl
    | cons c cs =>
      obtain ⟨hplus, hminus⟩ := h c rfl
      simp [Sign.text, Sign.isNegative, splitSign, hplus, hminus]

theorem exists_splitSign (cs : List Char) : ∃ s : Sign, s.text ++ (splitSign cs).2 = cs := by
  unfold splitSign
  split
  · exact ⟨.minus, rfl⟩
  · exact ⟨.plus, rfl⟩
  · exact ⟨.bare, rfl⟩

theorem splitAt?_append (hxs : ∀ c ∈ xs, p c = false) (ha : p a = true) :
    splitAt? p (xs ++ a :: ys) = some (xs, ys) := by
  have hkeep (c : Char) (hc : c ∈ xs) : (!p c) = true := by rw [hxs c hc, Bool.not_false]
  rw [splitAt?, List.dropWhile_append_of_pos hkeep, List.takeWhile_append_of_pos hkeep]
  simp [ha]

theorem splitAt?_of_forall (hcs : ∀ c ∈ cs, p c = false) : splitAt? p cs = none := by
  have hnil : cs.dropWhile (fun c => !p c) = [] :=
    List.dropWhile_eq_nil_iff.mpr fun c hc => by rw [hcs c hc, Bool.not_false]
  rw [splitAt?, hnil]

theorem exists_of_splitAt? (h : splitAt? p cs = some (xs, ys)) :
    ∃ a, xs ++ a :: ys = cs ∧ p a = true := by
  have happend := List.takeWhile_append_dropWhile (p := fun c => !p c) (l := cs)
  unfold splitAt? at h
  split at h
  · cases h
  · next a after hdrop =>
    cases h
    refine ⟨a, ?_, ?_⟩
    · rw [← hdrop, happend]
    · have hhead := List.head?_dropWhile_not (fun c => !p c) cs
      simpa [hdrop] using hhead

/-- There is one way only to split a text where the characters stop to be of one sort. -/
theorem append_inj_of_head? {P : Char → Prop} (hxs : ∀ c ∈ xs, P c) (hys : ∀ c ∈ ys, P c)
    (hus : ∀ c ∈ us.head?, ¬ P c) (hvs : ∀ c ∈ vs.head?, ¬ P c) (h : xs ++ us = ys ++ vs) :
    xs = ys ∧ us = vs := by
  induction xs generalizing ys with
  | nil =>
    cases ys with
    | nil => exact ⟨rfl, h⟩
    | cons d ys =>
      rw [List.nil_append] at h
      rw [h] at hus
      exact absurd (hys d List.mem_cons_self) (hus d rfl)
  | cons c xs ih =>
    cases ys with
    | nil =>
      rw [List.nil_append] at h
      rw [← h] at hvs
      exact absurd (hxs c List.mem_cons_self) (hvs c rfl)
    | cons d ys =>
      obtain ⟨rfl, hrest⟩ := List.cons.inj h
      obtain ⟨rfl, rfl⟩ := ih (fun e he => hxs e (List.mem_cons_of_mem _ he))
        (fun e he => hys e (List.mem_cons_of_mem _ he)) hrest
      exact ⟨rfl, rfl⟩

/-! ## Reading a numeral -/

theorem head?_ne_sign (hxs : ∀ c ∈ xs, isDigit c = true ∨ c = '.') :
    ∀ c ∈ xs.head?, c ≠ '+' ∧ c ≠ '-' := by
  intro c hc
  rcases hxs c (List.mem_of_mem_head? hc) with hdigit | rfl
  · exact ⟨ne_of_isDigit hdigit (by decide), ne_of_isDigit hdigit (by decide)⟩
  · decide

theorem Power.readInteger?_eq (p : Power) :
    readInteger? (p.sign.text ++ p.digits) = signed64? p.exponent := by
  have hdigits := List.all_eq_true.mp p.isDigits
  rw [readInteger?, splitSign_text p.sign (head?_ne_sign fun c hc => .inl (hdigits c hc)),
    exponent, ← natOf_eq_countOf]
  exact if_pos ⟨p.nonempty, p.isDigits⟩

theorem Power.letter_isLetter (p : Power) :
    (decide (p.letter = 'e') || decide (p.letter = 'E')) = true := by
  rcases p.isLetter with h | h <;> simp [h]

theorem exists_power_of_readInteger? {e : Int} (h : readInteger? cs = some e)
    (ha : a = 'e' ∨ a = 'E') : ∃ p : Power, p.text = a :: cs := by
  obtain ⟨s, hs⟩ := exists_splitSign cs
  unfold readInteger? at h
  dsimp only at h
  split at h
  · next hdigits => exact ⟨⟨a, s, (splitSign cs).2, ha, hdigits.2, hdigits.1⟩, congrArg (a :: ·) hs⟩
  · cases h

namespace Numeral

variable (m : Numeral)

theorem mem_mantissa (hc : c ∈ m.mantissa) : isDigit c = true ∨ c = '.' := by
  have hdigits := List.all_eq_true.mp m.isDigits
  rcases List.mem_append.mp hc with hc | hc
  · exact .inl (hdigits c (List.mem_append_left _ hc))
  · cases hf : m.fraction with
    | none =>
      rw [hf] at hc
      cases hc
    | some f =>
      rw [hf] at hc hdigits
      rcases List.mem_cons.mp hc with rfl | hc
      · exact .inr rfl
      · exact .inl (hdigits c (List.mem_append_right _ hc))

theorem mantissa_ne_nil : m.mantissa ≠ [] := by
  have hne := m.nonempty
  unfold mantissa
  cases hf : m.fraction with
  | none => rwa [hf] at hne
  | some f => simp

theorem splitAt?_point :
    (splitAt? (fun c => c = '.') m.mantissa).getD (m.mantissa, []) =
      (m.whole, m.fraction.getD []) := by
  have hdigits := List.all_eq_true.mp m.isDigits
  have hpoint : ∀ c ∈ m.whole, decide (c = '.') = false := fun c hc =>
    decide_eq_false (ne_of_isDigit (hdigits c (List.mem_append_left _ hc)) (by decide))
  unfold mantissa
  cases m.fraction with
  | none =>
    rw [Option.elim_none, List.append_nil, splitAt?_of_forall hpoint]
    rfl
  | some f =>
    rw [Option.elim_some, splitAt?_append hpoint (decide_eq_true rfl)]
    rfl

theorem ne_sign_of_head? :
    ∀ c ∈ (m.mantissa ++ m.power.elim [] Power.text).head?, c ≠ '+' ∧ c ≠ '-' := by
  rw [List.head?_append, Option.or_of_isSome (List.isSome_head?.mpr m.mantissa_ne_nil)]
  exact head?_ne_sign fun c hc => m.mem_mantissa hc

theorem not_letter_of_mem_mantissa :
    ∀ c ∈ m.mantissa, (decide (c = 'e') || decide (c = 'E')) = false := by
  intro c hc
  rcases m.mem_mantissa hc with hdigit | rfl
  · have he : c ≠ 'e' := ne_of_isDigit hdigit (by decide)
    have hE : c ≠ 'E' := ne_of_isDigit hdigit (by decide)
    simp [he, hE]
  · decide

/-- Of a numeral, the parts are read that it is put together from. -/
theorem parse?_text : parse? m.text = (do
    let e ← signed64? m.exponent
    ofParts? m.sign.isNegative m.whole (m.fraction.getD []) e) := by
  have hletter := m.not_letter_of_mem_mantissa
  have hdigits : m.whole ++ m.fraction.getD [] ≠ [] ∧ m.whole.all isDigit = true ∧
      (m.fraction.getD []).all isDigit = true :=
    ⟨m.nonempty, Bool.and_eq_true_iff.mp (List.all_append ▸ m.isDigits)⟩
  rw [parse?, text, splitSign_text m.sign m.ne_sign_of_head?, exponent]
  dsimp only
  cases m.power with
  | none =>
    rw [Option.elim_none, List.append_nil, splitAt?_of_forall hletter]
    dsimp only [Option.bind_eq_bind, Option.bind_some]
    rw [m.splitAt?_point]
    exact if_pos hdigits
  | some p =>
    rw [Option.elim_some, Power.text, splitAt?_append hletter p.letter_isLetter]
    dsimp only
    rw [p.readInteger?_eq, Option.elim_some]
    cases signed64? p.exponent with
    | none => rfl
    | some e =>
      dsimp only [Option.map_some, Option.bind_eq_bind, Option.bind_some]
      rw [m.splitAt?_point]
      exact if_pos hdigits

end Numeral

/-! ## Texts of numerals -/

theorem Sign.text_injective {s t : Sign} (h : s.text = t.text) : s = t := by
  cases s <;> cases t <;> simp_all [text]

theorem Sign.eq_of_mem {s : Sign} (hc : c ∈ s.text) : c = '+' ∨ c = '-' := by
  cases s <;> simp_all [text]

/-- A sign is told from the text that it stands in front of. -/
theorem Sign.append_inj {s t : Sign} (hxs : ∀ c ∈ xs.head?, c ≠ '+' ∧ c ≠ '-')
    (hys : ∀ c ∈ ys.head?, c ≠ '+' ∧ c ≠ '-') (h : s.text ++ xs = t.text ++ ys) :
    s = t ∧ xs = ys := by
  obtain ⟨hsign, hrest⟩ := append_inj_of_head? (fun _ => Sign.eq_of_mem) (fun _ => Sign.eq_of_mem)
    (fun c hc => not_or.mpr (hxs c hc)) (fun c hc => not_or.mpr (hys c hc)) h
  exact ⟨text_injective hsign, hrest⟩

theorem Power.text_injective {p q : Power} (h : p.text = q.text) : p = q := by
  have hhead (p : Power) : ∀ c ∈ p.digits.head?, c ≠ '+' ∧ c ≠ '-' :=
    head?_ne_sign fun c hc => .inl (List.all_eq_true.mp p.isDigits c hc)
  obtain ⟨hletter, h⟩ := List.cons.inj h
  obtain ⟨hsign, hdigits⟩ := Sign.append_inj (hhead p) (hhead q) h
  cases p
  cases q
  simp_all

/-- A numeral is told from its text. -/
theorem Numeral.text_injective {m n : Numeral} (h : m.text = n.text) : m = n := by
  have hpower (m : Numeral) : ∀ c ∈ (m.power.elim [] Power.text).head?,
      ¬ (decide (c = 'e') || decide (c = 'E')) = false := by
    intro c hc
    cases hp : m.power with
    | none => simp [hp] at hc
    | some p =>
      rw [hp] at hc
      obtain rfl : p.letter = c := Option.some.inj hc
      rw [p.letter_isLetter]
      exact Bool.noConfusion
  have hwhole (m : Numeral) : ∀ c ∈ m.whole, c ≠ '.' := fun c hc =>
    ne_of_isDigit (List.all_eq_true.mp m.isDigits c (List.mem_append_left _ hc)) (by decide)
  have hpoint (m : Numeral) : ∀ c ∈ (m.fraction.elim [] ('.' :: ·)).head?, ¬ c ≠ '.' := by
    cases m.fraction <;> simp
  obtain ⟨hsign, h⟩ := Sign.append_inj m.ne_sign_of_head? n.ne_sign_of_head? h
  obtain ⟨hmantissa, hpowers⟩ := append_inj_of_head? m.not_letter_of_mem_mantissa
    n.not_letter_of_mem_mantissa (hpower m) (hpower n) h
  obtain ⟨hwholes, hfractions⟩ := append_inj_of_head? (hwhole m) (hwhole n) (hpoint m) (hpoint n)
    hmantissa
  have hfraction : m.fraction = n.fraction := by
    cases hm : m.fraction <;> cases hn : n.fraction <;> simp_all
  have hpower : m.power = n.power := by
    cases hm : m.power with
    | none => cases hn : n.power <;> simp_all [Power.text]
    | some p =>
      cases hn : n.power with
      | none => simp_all [Power.text]
      | some q =>
        rw [hm, hn] at hpowers
        rw [Power.text_injective hpowers]
  cases m
  cases n
  simp_all

/-! ## What is read -/

/-- Digits on both sides of a point, or without one, make a numeral with any sign and power. -/
theorem exists_numeral (s : Sign) (power : Option Power) {mantissa : List Char}
    (h : let parts := (splitAt? (fun c => c = '.') mantissa).getD (mantissa, [])
      parts.1 ++ parts.2 ≠ [] ∧ parts.1.all isDigit = true ∧ parts.2.all isDigit = true) :
    ∃ m : Numeral, m.text = s.text ++ (mantissa ++ power.elim [] Power.text) := by
  cases hsplit : splitAt? (fun c => c = '.') mantissa with
  | none =>
    rw [hsplit] at h
    obtain ⟨hne, hdigits⟩ := h
    refine ⟨⟨s, mantissa, none, power, ?_, hne⟩, ?_⟩
    · exact List.all_append.trans (Bool.and_eq_true_iff.mpr hdigits)
    · rw [Numeral.text, Numeral.mantissa, Option.elim_none, List.append_nil]
  | some parts =>
    rw [hsplit] at h
    obtain ⟨hne, hdigits⟩ := h
    obtain ⟨a, hmantissa, ha⟩ := exists_of_splitAt? hsplit
    obtain rfl := of_decide_eq_true ha
    refine ⟨⟨s, parts.1, some parts.2, power, ?_, hne⟩, ?_⟩
    · exact List.all_append.trans (Bool.and_eq_true_iff.mpr hdigits)
    · rw [Numeral.text, Numeral.mantissa, Option.elim_some, hmantissa]

/-- What is read is a numeral. -/
theorem exists_numeral_of_parse? {d : DecimalText} (h : parse? cs = some d) :
    ∃ m : Numeral, m.text = cs := by
  obtain ⟨s, hs⟩ := exists_splitSign cs
  unfold parse? at h
  dsimp only at h
  split at h
  · next mantissa power hsplit =>
    obtain ⟨⟨_, e⟩, hread, h⟩ := Option.bind_eq_some_iff.mp h
    obtain ⟨e, hpower, heq⟩ := Option.map_eq_some_iff.mp hread
    cases heq
    obtain ⟨a, hrest, ha⟩ := exists_of_splitAt? hsplit
    obtain ⟨p, hp⟩ := exists_power_of_readInteger? hpower (by simpa using ha)
    dsimp only at h
    split at h
    · next hdigits =>
      rw [← hs, ← hrest, ← hp]
      exact exists_numeral s (some p) hdigits
    · cases h
  · change (if _ then _ else _) = _ at h
    split at h
    · next hdigits =>
      rw [← hs, ← List.append_nil (splitSign cs).2]
      exact exists_numeral s none hdigits
    · cases h

end ProviderKit.DecimalText
