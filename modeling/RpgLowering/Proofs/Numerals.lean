import RpgLowering.Real.Numeral
import Mathlib.Data.Nat.Digits.Defs

/-! Decimal digits as they are written, read back: a run of digits gives its value again, and a
natural number is written without zeros in front, so that its digits are a numeral. -/
namespace RpgLowering.Numeral

/-- No further digit follows. -/
def NoDigit (rest : List Char) : Prop := ∀ c ∈ rest.head?, c.isDigit = false

theorem digits_append {ds rest : List Char} (hd : ∀ c ∈ ds, c.isDigit = true) (hr : NoDigit rest) :
    digits (ds ++ rest) = (ds.map digitValue, rest) := by
  have hstop : rest.takeWhile Char.isDigit = [] ∧ rest.dropWhile Char.isDigit = rest := by
    cases rest with
    | nil => exact ⟨rfl, rfl⟩
    | cons c cs =>
      have hc : c.isDigit = false := hr c rfl
      exact ⟨List.takeWhile_cons_of_neg (by simp [hc]), List.dropWhile_cons_of_neg (by simp [hc])⟩
  rw [digits, List.takeWhile_append_of_pos hd, List.dropWhile_append_of_pos hd, hstop.1, hstop.2,
    List.append_nil]

theorem ofDigits_map_digitValue (cs : List Char) :
    ofDigits (cs.map digitValue) = Nat.ofDigitChars 10 cs 0 := by
  rw [ofDigits, Nat.ofDigitChars_eq_foldl, List.foldl_map]
  rfl

theorem isDigit_toDigits {n : Nat} : ∀ c ∈ Nat.toDigits 10 n, c.isDigit = true :=
  fun _ hc => Nat.isDigit_of_mem_toDigits (by omega) (by omega) hc

theorem ofDigits_toDigits (n : Nat) : ofDigits ((Nat.toDigits 10 n).map digitValue) = n := by
  rw [ofDigits_map_digitValue, Nat.ofDigitChars_ten_toDigits]

/-- Digits that a whole part may consist of: there is one, and a zero in front is the only one. -/
structure Whole (ds : List Char) : Prop where
  digit : ∀ c ∈ ds, c.isDigit = true
  nonempty : ds ≠ []
  leading : ds.length = 1 ∨ ∀ c ∈ ds.head?, digitValue c ≠ 0

theorem wholePart?_append {ds rest : List Char} (hd : Whole ds) (hr : NoDigit rest) :
    wholePart? (ds ++ rest) = some (ds.map digitValue, rest) := by
  unfold wholePart?
  rw [digits_append hd.digit hr]
  match ds, hd with
  | [], hd => exact absurd rfl hd.nonempty
  | [c], _ =>
    simp only [List.map_cons, List.map_nil]
    cases digitValue c <;> rfl
  | c :: c' :: cs, hd =>
    have hc : digitValue c ≠ 0 := by
      rcases hd.leading with hone | hhead
      · simp at hone
      · exact hhead c rfl
    obtain ⟨k, hk⟩ := Nat.exists_eq_succ_of_ne_zero hc
    simp only [List.map_cons, hk]

theorem head_toDigits_ne_zero {n : Nat} (hn : n ≠ 0) :
    ∀ c ∈ (Nat.toDigits 10 n).head?, digitValue c ≠ 0 := by
  induction n using Nat.strongRecOn with
  | ind n ih =>
    rw [Nat.toDigits_eq_if (by omega)]
    by_cases hlt : n < 10
    · rw [if_pos hlt]
      intro c hc
      obtain rfl : n.digitChar = c := by simpa using hc
      have hval := Nat.toNat_digitChar_sub_48_of_lt_ten hlt
      have hzero : '0'.toNat = 48 := rfl
      unfold digitValue
      omega
    · have hdiv : n / 10 ≠ 0 := by omega
      have hne : Nat.toDigits 10 (n / 10) ≠ [] := Nat.toDigits_ne_nil
      rw [if_neg hlt, List.head?_append, List.head?_eq_some_head hne, Option.some_or,
        ← List.head?_eq_some_head hne]
      exact ih (n / 10) (by omega) hdiv

theorem whole_toDigits (n : Nat) : Whole (Nat.toDigits 10 n) where
  digit := isDigit_toDigits
  nonempty := Nat.toDigits_ne_nil
  leading := by
    by_cases hn : n = 0
    · subst hn
      exact .inl rfl
    · exact .inr (head_toDigits_ne_zero hn)

/-- Behind a whole part come a fraction and an exponent. -/
theorem ofChars?_append {whole rest : List Char} (hw : Whole whole) (hr : NoDigit rest) :
    ofChars? (whole ++ rest) = (do
      let (fraction, cs) ← fractionPart? rest
      let exponent ← exponentPart? cs
      some { negative := false, whole := whole.map digitValue, fraction, exponent }) := by
  have hsign : ∀ tail, whole ++ rest ≠ '-' :: tail := by
    intro tail heq
    have hhead : '-' ∈ whole := by
      cases whole with
      | nil => exact absurd rfl hw.nonempty
      | cons c whole =>
        simp only [List.cons_append, List.cons.injEq] at heq
        exact heq.1 ▸ List.mem_cons_self
    exact absurd (hw.digit '-' hhead) (by decide)
  unfold ofChars?
  split
  rename_i heq
  split at heq
  · rename_i hcs
    exact absurd hcs (hsign _)
  · cases heq
    rw [wholePart?_append hw hr]
    rfl

theorem ofChars?_of_parts {cs whole rest : List Char} {fraction : List Nat} {rest' : List Char}
    {exponent : Option (Bool × Nat)} (hw : Whole whole) (hr : NoDigit rest)
    (hcs : cs = whole ++ rest) (hf : fractionPart? rest = some (fraction, rest'))
    (he : exponentPart? rest' = some exponent) :
    ofChars? cs = some
        { negative := false, whole := whole.map digitValue, fraction, exponent } ∧
      ofChars? ('-' :: cs) = some
        { negative := true, whole := whole.map digitValue, fraction, exponent } := by
  constructor
  · rw [hcs, ofChars?_append hw hr, hf]
    simp [he]
  · have hwhole : wholePart? cs = some (whole.map digitValue, rest) := hcs ▸ wholePart?_append hw hr
    simp [ofChars?, hwhole, hf, he]

/-- The numeral of an integer. -/
theorem ofChars?_toDigits (n : Nat) :
    ofChars? (Nat.toDigits 10 n) = some
        { negative := false, whole := (Nat.toDigits 10 n).map digitValue, fraction := [],
          exponent := none } ∧
      ofChars? ('-' :: Nat.toDigits 10 n) = some
        { negative := true, whole := (Nat.toDigits 10 n).map digitValue, fraction := [],
          exponent := none } :=
  have hend : NoDigit [] := by simp [NoDigit]
  ofChars?_of_parts (whole_toDigits n) hend (List.append_nil _).symm rfl rfl

end RpgLowering.Numeral
