import RpgLowering.Real.Style
import RpgLowering.Proofs.Numerals
import RpgLowering.Proofs.Rounding

/-! The written form of a number is a numeral whose value rounds to the number. -/
namespace RpgLowering

namespace Binary64

theorem roundDiv_mul {n d c : Nat} (hc : 0 < c) : roundDiv (n * c) (d * c) = roundDiv n d := by
  have hhalf : ∀ r, (2 * (r * c) < d * c ↔ 2 * r < d) ∧ (2 * (r * c) = d * c ↔ 2 * r = d) := by
    intro r
    rw [← Nat.mul_assoc]
    exact ⟨Nat.mul_lt_mul_right hc, Nat.mul_left_inj (Nat.ne_of_gt hc)⟩
  unfold roundDiv
  simp only [Nat.mul_div_mul_right n d hc, Nat.mul_mod_mul_right, (hhalf _).1, (hhalf _).2]

theorem nearest_mul {num den c : Nat} (hc : 0 < c) :
    nearest (num * c) (den * c) = nearest num den := by
  have hnum : num * c * twoTo 1074 = num * twoTo 1074 * c := Nat.mul_right_comm _ _ _
  have hden : ∀ k, den * c * twoTo k = den * twoTo k * c := fun k => Nat.mul_right_comm _ _ _
  unfold nearest
  simp only [hnum, hden, Nat.mul_div_mul_right _ _ hc, roundDiv_mul hc]

/-- Equal ratios have the same nearest number. -/
theorem nearest_congr {num den num' den' : Nat} (hden : 0 < den) (hden' : 0 < den')
    (h : num * den' = num' * den) : nearest num den = nearest num' den' := by
  rw [← nearest_mul hden', h, Nat.mul_comm den den', nearest_mul hden]

end Binary64

/-- The number nearest to a decimal. -/
def Decimal.rounded (d : Decimal) : Binary64 :=
  .nearest (d.digits * tenTo d.exponent.toNat) (tenTo (-d.exponent).toNat)

namespace Numeral

/-- The magnitude of a numeral: all its digits, and the power of ten of the last one. -/
def decimal (n : Numeral) : Decimal :=
  { digits := ofDigits (n.whole ++ n.fraction)
    exponent := (match n.exponent with
      | none => 0
      | some (minus, e) => if minus then -(e : Int) else e) - n.fraction.length }

/-- Whether the numeral has neither fraction nor exponent. -/
def isWhole (n : Numeral) : Bool := n.fraction.isEmpty && n.exponent.isNone

/-- The number nearest to the magnitude of a numeral. One that is not zero may not round to zero,
and none may be beyond the largest number. -/
def nearest? (n : Numeral) : Option Binary64 :=
  let x := n.decimal.rounded
  if x.isInfinite || (x.isZero && n.decimal.digits != 0) then none else some x

/-- The text is a numeral that has a fraction or an exponent and stands for the decimal, perhaps
with further zeros at its end. -/
def Spells (cs : List Char) (d : Decimal) : Prop :=
  ∃ n, ofChars? cs = some n ∧ n.isWhole = false ∧
    ∃ j : Nat, n.decimal.digits = d.digits * tenTo j ∧ n.decimal.exponent = d.exponent - j

theorem rounded_of_scaled {d d' : Decimal} {j : Nat} (hd : d'.digits = d.digits * tenTo j)
    (he : d'.exponent = d.exponent - j) : d'.rounded = d.rounded := by
  refine Binary64.nearest_congr (tenTo_pos _) (tenTo_pos _) ?_
  have hshift := tenTo_sub d.exponent j
  rw [hd, he]
  calc
    d.digits * tenTo j * tenTo (d.exponent - j).toNat * tenTo (-d.exponent).toNat =
        d.digits * (tenTo (d.exponent - j).toNat * tenTo j * tenTo (-d.exponent).toNat) := by ring
    _ = d.digits * tenTo d.exponent.toNat * tenTo (-(d.exponent - j)).toNat := by rw [hshift]; ring

theorem noDigit_nil : NoDigit [] := by simp [NoDigit]

theorem fractionPart?_append {ds rest : List Char} (hne : ds ≠ [])
    (hd : ∀ c ∈ ds, c.isDigit = true) (hr : NoDigit rest) :
    fractionPart? ('.' :: (ds ++ rest)) = some (ds.map digitValue, rest) := by
  cases ds with
  | nil => exact absurd rfl hne
  | cons c ds => simp only [fractionPart?, digits_append hd hr, List.map_cons]

theorem signPart_toDigits (n : Nat) :
    signPart (Nat.toDigits 10 n) = (false, Nat.toDigits 10 n) := by
  have hdigit : ∀ c ∈ Nat.toDigits 10 n, c.isDigit = true := isDigit_toDigits
  unfold signPart
  split
  · rename_i heq
    rw [heq] at hdigit
    exact absurd (hdigit '-' List.mem_cons_self) (by decide)
  · rename_i heq
    rw [heq] at hdigit
    exact absurd (hdigit '+' List.mem_cons_self) (by decide)
  · rfl

theorem exponentPart?_toDigits (e : Int) :
    exponentPart? ('e' :: ((if e < 0 then ['-'] else []) ++ Nat.toDigits 10 e.natAbs)) =
      some (some (decide (e < 0), e.natAbs)) := by
  have hsign : signPart ((if e < 0 then ['-'] else []) ++ Nat.toDigits 10 e.natAbs) =
      (decide (e < 0), Nat.toDigits 10 e.natAbs) := by
    by_cases he : e < 0
    · simp [he, signPart]
    · simp only [he, if_false, List.nil_append, decide_false]
      exact signPart_toDigits e.natAbs
  have hdigits : digits (Nat.toDigits 10 e.natAbs) =
      ((Nat.toDigits 10 e.natAbs).map digitValue, []) := by
    have hall := digits_append (isDigit_toDigits (n := e.natAbs)) noDigit_nil
    rwa [List.append_nil] at hall
  have hvalue := ofDigits_toDigits e.natAbs
  have hne : (Nat.toDigits 10 e.natAbs).map digitValue ≠ [] := by simp [Nat.toDigits_ne_nil]
  unfold exponentPart?
  simp only [beq_self_eq_true, Bool.true_or, if_true, hsign, hdigits]
  generalize (Nat.toDigits 10 e.natAbs).map digitValue = ds at *
  cases ds with
  | nil => exact absurd rfl hne
  | cons d ds => simp only [hvalue]

theorem isDigit_zeros {n : Nat} : ∀ c ∈ NumberStyle.zeros n, c.isDigit = true := by
  intro c hc
  rw [NumberStyle.zeros, List.mem_replicate] at hc
  rw [hc.2]
  rfl

/-- A decimal that is zero has no exponent. -/
def Plain (d : Decimal) : Prop := d.digits = 0 → d.exponent = 0

theorem whole_append_zeros {d : Decimal} (hd : Plain d) :
    Whole (Nat.toDigits 10 d.digits ++ NumberStyle.zeros d.exponent.toNat) where
  digit c hc := (List.mem_append.mp hc).elim (isDigit_toDigits c) (isDigit_zeros c)
  nonempty := by simp [Nat.toDigits_ne_nil]
  leading := by
    by_cases hzero : d.digits = 0
    · left
      rw [hd hzero, hzero]
      rfl
    · right
      intro c hc
      have hne : Nat.toDigits 10 d.digits ≠ [] := Nat.toDigits_ne_nil
      rw [List.head?_append, List.head?_eq_some_head hne, Option.some_or,
        ← List.head?_eq_some_head hne] at hc
      exact head_toDigits_ne_zero hzero c hc

/-- Without an exponent: the digits and zeros up to the point. -/
theorem spells_whole {d : Decimal} (hd : Plain d) (he : 0 ≤ d.exponent) :
    Spells (Nat.toDigits 10 d.digits ++ NumberStyle.zeros d.exponent.toNat ++ ['.', '0']) d := by
  have hpoint : NoDigit ['.', '0'] := by simp [NoDigit]
  have hread := (ofChars?_of_parts (whole_append_zeros hd) hpoint rfl
    (fractionPart?_append (List.cons_ne_nil '0' []) (List.all_eq_true.mp (by decide)) noDigit_nil)
    rfl).1
  refine ⟨_, hread, rfl, d.exponent.toNat + 1, ?_, ?_⟩
  · simp only [decimal, ← List.map_append, ofDigits_map_digitValue, Nat.ofDigitChars_append,
      Nat.ofDigitChars_ten_toDigits, NumberStyle.zeros, Nat.ofDigitChars_replicate_zero]
    rw [tenTo_add]
    simp [Nat.ofDigitChars_cons, tenTo]
    ring
  · simp [decimal]
    omega

/-- Digits cut by a point `places` digits before their end. -/
theorem spells_cut {d : Decimal} {cs : List Char} {places : Nat} (hd : ∀ c ∈ cs, c.isDigit = true)
    (hvalue : Nat.ofDigitChars 10 cs 0 = d.digits) (hplaces : 0 < places)
    (hexponent : d.exponent = -(places : Int)) (hlength : places < cs.length)
    (hleading : cs.length = places + 1 ∨ ∀ c ∈ cs.head?, digitValue c ≠ 0) :
    Spells (cs.take (cs.length - places) ++ '.' :: cs.drop (cs.length - places)) d := by
  have hwhole : Whole (cs.take (cs.length - places)) := {
    digit := fun c hc => hd c (List.mem_of_mem_take hc)
    nonempty := by
      intro hnil
      have hlen := congrArg List.length hnil
      rw [List.length_take, List.length_nil] at hlen
      omega
    leading := by
      rcases hleading with hone | hhead
      · left
        rw [List.length_take]
        omega
      · right
        rwa [List.head?_take, if_neg (by omega)] }
  have hfraction : cs.drop (cs.length - places) ≠ [] := by
    intro hnil
    have hlen := congrArg List.length hnil
    rw [List.length_drop, List.length_nil] at hlen
    omega
  have hpart := fractionPart?_append hfraction (fun c hc => hd c (List.mem_of_mem_drop hc)) noDigit_nil
  rw [List.append_nil] at hpart
  have hpoint : NoDigit ('.' :: cs.drop (cs.length - places)) := by simp [NoDigit]
  have hread := (ofChars?_of_parts hwhole hpoint rfl hpart rfl).1
  refine ⟨_, hread, ?_, 0, ?_, ?_⟩
  · have hsome := List.isEmpty_eq_false_iff.mpr hfraction
    simp only [isWhole, List.isEmpty_map, hsome, Bool.false_and]
  · rw [decimal, ← List.map_append, List.take_append_drop, ofDigits_map_digitValue, hvalue]
    exact (Nat.mul_one _).symm
  · simp only [decimal, List.length_map, List.length_drop]
    omega

theorem spells_positional {d : Decimal} (hd : Plain d) :
    Spells (NumberStyle.listing.positionalText d) d := by
  unfold NumberStyle.positionalText
  by_cases he : 0 ≤ d.exponent
  · rw [if_pos he]
    exact spells_whole hd he
  · rw [if_neg he]
    have hpositive : d.digits ≠ 0 := fun hzero => he (by rw [hd hzero])
    have hlength : ∀ n, (NumberStyle.zeros n).length = n := fun n => List.length_replicate
    refine spells_cut ?_ ?_ (by omega) (by omega) ?_ ?_
    · intro c hc
      exact (List.mem_append.mp hc).elim (isDigit_zeros c) (isDigit_toDigits c)
    · rw [Nat.ofDigitChars_append, NumberStyle.zeros, Nat.ofDigitChars_replicate_zero, Nat.mul_zero,
        Nat.ofDigitChars_ten_toDigits]
    · rw [List.length_append, hlength]
      omega
    · rw [List.length_append, hlength]
      by_cases hshort : (Nat.toDigits 10 d.digits).length ≤ (-d.exponent).toNat
      · left
        omega
      · right
        rw [show (-d.exponent).toNat + 1 - (Nat.toDigits 10 d.digits).length = 0 by omega]
        exact head_toDigits_ne_zero hpositive

/-- With an exponent: one digit before the point. -/
theorem spells_scientific {d : Decimal} {c : Char} {rest : List Char} {e : Int}
    (hd : ∀ c' ∈ c :: rest, c'.isDigit = true)
    (hvalue : Nat.ofDigitChars 10 (c :: rest) 0 = d.digits) (he : e = d.exponent + rest.length) :
    Spells ((if rest.isEmpty then [c] else c :: '.' :: rest) ++
      'e' :: ((if e < 0 then ['-'] else []) ++ Nat.toDigits 10 e.natAbs)) d := by
  have hwhole : Whole [c] :=
    { digit := fun c' hc => hd c' (by simp_all), nonempty := by simp, leading := .inl rfl }
  have hexponent := exponentPart?_toDigits e
  have hmark : NoDigit ('e' :: ((if e < 0 then ['-'] else []) ++ Nat.toDigits 10 e.natAbs)) := by
    simp [NoDigit]
  have hsign : (if decide (e < 0) = true then -(e.natAbs : Int) else e.natAbs) = e := by
    by_cases hlt : e < 0
    · rw [if_pos (decide_eq_true hlt)]
      omega
    · rw [if_neg (by simpa using hlt)]
      omega
  -- only the fraction differs between the two shapes
  obtain ⟨text, htext, hfraction⟩ : ∃ text,
      (if rest.isEmpty then [c] else c :: '.' :: rest) ++
        'e' :: ((if e < 0 then ['-'] else []) ++ Nat.toDigits 10 e.natAbs) = [c] ++ text ∧
      NoDigit text ∧ fractionPart? text = some (rest.map digitValue,
        'e' :: ((if e < 0 then ['-'] else []) ++ Nat.toDigits 10 e.natAbs)) := by
    cases rest with
    | nil => exact ⟨_, rfl, hmark, rfl⟩
    | cons c' rest =>
      refine ⟨'.' :: ((c' :: rest) ++ 'e' :: ((if e < 0 then ['-'] else []) ++
        Nat.toDigits 10 e.natAbs)), rfl, by simp [NoDigit], ?_⟩
      exact fractionPart?_append (List.cons_ne_nil _ _)
        (fun x hx => hd x (List.mem_cons_of_mem _ hx)) hmark
  have hread := (ofChars?_of_parts hwhole hfraction.1 htext hfraction.2 hexponent).1
  refine ⟨_, hread, by simp [isWhole], 0, ?_, ?_⟩
  · rw [decimal, ← List.map_append, List.singleton_append, ofDigits_map_digitValue, hvalue]
    exact (Nat.mul_one _).symm
  · simp only [decimal, List.length_map, hsign]
    omega

theorem spells_exponent (d : Decimal) : Spells (NumberStyle.listing.exponentText d) d := by
  have hdigit : ∀ c ∈ Nat.toDigits 10 d.digits, c.isDigit = true := isDigit_toDigits
  have hvalue : Nat.ofDigitChars 10 (Nat.toDigits 10 d.digits) 0 = d.digits :=
    Nat.ofDigitChars_ten_toDigits
  have hne : Nat.toDigits 10 d.digits ≠ [] := Nat.toDigits_ne_nil
  have hleading : d.leading = d.exponent + ((Nat.toDigits 10 d.digits).length : Int) - 1 := rfl
  unfold NumberStyle.exponentText
  simp only [NumberStyle.listing, Bool.false_eq_true, if_false, List.append_assoc, List.cons_append]
  generalize Nat.toDigits 10 d.digits = ds at *
  cases ds with
  | nil => exact absurd rfl hne
  | cons c rest =>
    rw [List.length_cons] at hleading
    exact spells_scientific hdigit hvalue (by omega)

end Numeral

theorem Binary64.fields_abs (x : Binary64) :
    x.abs.exponentField = x.exponentField ∧ x.abs.fractionField = x.fractionField := by
  have habs : x.abs.bits.toNat = x.bits.toNat % 0x8000000000000000 := rfl
  unfold exponentField fractionField
  rw [habs]
  omega

/-- The text of a finite number is a numeral whose magnitude rounds to that of the number. -/
theorem spells_magnitude {x : Binary64} (hx : x.isFinite) :
    ∃ n, Numeral.ofChars? (NumberStyle.listing.magnitudeText x) = some n ∧ n.isWhole = false ∧
      n.nearest? = some x.abs := by
  have hzero : x.units = 0 → x.shortest .up = ⟨0, 0⟩ := fun h => if_pos h
  have hplain : Numeral.Plain (x.shortest .up) := by
    intro hdigits
    by_cases hunits : x.units = 0
    · rw [hzero hunits]
    · have hpos := Binary64.shortest_digits_pos hunits .up
      omega
  have hspells : Numeral.Spells (NumberStyle.listing.magnitudeText x) (x.shortest .up) := by
    unfold NumberStyle.magnitudeText
    simp only
    split
    · exact Numeral.spells_positional hplain
    · exact Numeral.spells_exponent _
  obtain ⟨n, hn, hreal, j, hdigits, hexponent⟩ := hspells
  have hrounded : n.decimal.rounded = x.abs :=
    (Numeral.rounded_of_scaled hdigits hexponent).trans (Binary64.nearest_shortest hx .up)
  obtain ⟨hexp, hfrac⟩ := x.fields_abs
  have hfinite : x.abs.isInfinite = false := by
    have hne : x.exponentField ≠ 2047 := by simpa [Binary64.isFinite] using hx
    simp [Binary64.isInfinite, hexp, hne]
  have hunits : x.abs.units = x.units := by
    unfold Binary64.units Binary64.significand Binary64.scale
    rw [hexp, hfrac]
  have hnonzero : (x.abs.isZero && n.decimal.digits != 0) = false := by
    by_cases hz : x.units = 0
    · simp [hdigits, hzero hz]
    · simp [Binary64.isZero, hunits, hz]
  refine ⟨n, hn, hreal, ?_⟩
  simp only [Numeral.nearest?, hrounded, hfinite, hnonzero, Bool.or_false, Bool.false_eq_true,
    if_false]

end RpgLowering
