import RpgLowering.Real.Shortest
import Mathlib.Algebra.Order.Ring.Nat
import Mathlib.Tactic.Ring
import Mathlib.Tactic.Linarith

/-! Rounding to the nearest number. Every ratio among the reals of a number's interval rounds to the
number, and the shortest decimal of a number is such a ratio. -/
namespace RpgLowering

theorem twoTo_add (a b : Nat) : twoTo (a + b) = twoTo a * twoTo b := Nat.pow_add 2 a b

theorem twoTo_pos (n : Nat) : 0 < twoTo n := Nat.two_pow_pos n

theorem tenTo_add (a b : Nat) : tenTo (a + b) = tenTo a * tenTo b := Nat.pow_add 10 a b

theorem tenTo_pos (n : Nat) : 0 < tenTo n := Nat.pow_pos (by decide)

/-- Moving to a finer grid moves a power of ten to the other side. -/
theorem tenTo_sub (a : Int) (j : Nat) : tenTo (a - j).toNat * tenTo j * tenTo (-a).toNat =
    tenTo a.toNat * tenTo (-(a - j)).toNat := by
  rw [← tenTo_add, ← tenTo_add, ← tenTo_add]
  congr 1
  omega

namespace Binary64

/-- The ratio `num / den` is one of the reals that round to the number. -/
def Covers (x : Binary64) (num den : Nat) : Prop :=
  if x.interval.closed then
    x.interval.lower * (twoTo x.scale * den) ≤ num * twoTo 1076 ∧
      num * twoTo 1076 ≤ x.interval.upper * (twoTo x.scale * den)
  else
    x.interval.lower * (twoTo x.scale * den) < num * twoTo 1076 ∧
      num * twoTo 1076 < x.interval.upper * (twoTo x.scale * den)

/-! ### The pattern of a number -/

theorem eq_of_bits {x y : Binary64} (h : x.bits.toNat = y.bits.toNat) : x = y := by
  cases x
  cases y
  exact congrArg mk (UInt64.toNat_inj.mp h)

theorem abs_bits (x : Binary64) :
    x.abs.bits.toNat = x.scale * 0x10000000000000 + x.significand := by
  have habs : x.abs.bits.toNat = x.bits.toNat % 0x8000000000000000 := rfl
  have hlt : x.bits.toNat < 2 ^ 64 := x.bits.toNat_lt
  rw [habs]
  unfold scale significand exponentField fractionField
  split <;> omega

theorem significand_lt (x : Binary64) : x.significand < 2 ^ 53 := by
  unfold significand fractionField
  split <;> omega

theorem le_significand {x : Binary64} (h : 0 < x.scale) : 2 ^ 52 ≤ x.significand := by
  unfold scale at h
  unfold significand
  rw [if_neg (by omega)]
  omega

theorem scale_lt {x : Binary64} (h : x.isFinite) : x.scale < 2046 := by
  have hne : x.exponentField ≠ 2047 := by simpa [isFinite] using h
  have hlt : x.exponentField < 2048 := Nat.mod_lt _ (by decide)
  unfold scale
  omega

/-! ### Rounding a quotient -/

/-- A quotient within half a unit of `m` is rounded to it; at the very half `m` has to be even. -/
theorem roundDiv_eq {n d m : Nat} (hd : 0 < d) (hlow : 2 * (m * d) ≤ 2 * n + d)
    (hhigh : 2 * n ≤ 2 * (m * d) + d)
    (hodd : m % 2 = 1 → 2 * (m * d) < 2 * n + d ∧ 2 * n < 2 * (m * d) + d) :
    roundDiv n d = m := by
  have hdiv : n = n / d * d + n % d := (Nat.div_add_mod' n d).symm
  have hmod : n % d < d := Nat.mod_lt n hd
  unfold roundDiv
  generalize n / d = q at *
  generalize n % d = r at *
  subst hdiv
  -- the quotient is cut off to `m` or to the number before it
  have hq : q = m ∨ q + 1 = m := by
    rcases Nat.lt_trichotomy q m with hlt | heq | hgt
    · right
      by_contra hne
      have hstep : (q + 2) * d ≤ m * d := Nat.mul_le_mul_right d (by omega)
      rw [Nat.add_mul] at hstep
      omega
    · exact .inl heq
    · have hstep : (m + 1) * d ≤ q * d := Nat.mul_le_mul_right d hgt
      rw [Nat.add_one_mul] at hstep
      omega
  rcases hq with rfl | rfl
  · by_cases hq : q % 2 = 1
    · have hstrict := hodd hq
      rw [if_pos (.inl (by omega))]
    · have hhalf : 2 * r < d ∨ 2 * r = d ∧ q % 2 = 0 := by omega
      rw [if_pos hhalf]
  · rw [Nat.add_one_mul q d] at hlow hhigh hodd
    have hhalf : ¬ (2 * r < d ∨ 2 * r = d ∧ q % 2 = 0) := by
      rintro (hlt | ⟨heq, heven⟩)
      · omega
      · have hstrict := hodd (by omega)
        omega
    rw [if_neg hhalf]

theorem log2_div_eq {n d k : Nat} (hlow : twoTo k * d ≤ n) (hhigh : n < twoTo (k + 1) * d)
    (hd : 0 < d) : (n / d).log2 = k := by
  have hge : 2 ^ k ≤ n / d := (Nat.le_div_iff_mul_le hd).mpr hlow
  have hlt : n / d < 2 ^ (k + 1) := (Nat.div_lt_iff_lt_mul hd).mpr hhigh
  have hpos : 0 < 2 ^ k := Nat.two_pow_pos k
  have hne : n / d ≠ 0 := by omega
  have h1 := (Nat.le_log2 hne).mpr hge
  have h2 := (Nat.log2_lt hne).mpr hlt
  omega

theorem log2_div_lt {n d k : Nat} (hk : 0 < k) (hhigh : n < twoTo k * d) (hd : 0 < d) :
    (n / d).log2 < k := by
  have hlt : n / d < 2 ^ k := (Nat.div_lt_iff_lt_mul hd).mpr hhigh
  by_cases hne : n / d = 0
  · rw [hne, Nat.log2_zero]
    exact hk
  · exact (Nat.log2_lt hne).mpr hlt

/-- The pattern of the nearest number, from its exponent and its significand. -/
theorem nearest_bits {num den k m : Nat} (hk : (num * twoTo 1074 / den).log2 - 52 = k)
    (hround : roundDiv (num * twoTo 1074) (den * twoTo k) = m)
    (hfinite : k * 0x10000000000000 + m < 0x7ff0000000000000) :
    (nearest num den).bits.toNat = k * 0x10000000000000 + m := by
  have hbits : (nearest num den).bits =
      (min (k * 0x10000000000000 + m) 0x7ff0000000000000).toUInt64 := by
    simp only [nearest, hk, hround]
  rw [hbits, Nat.min_eq_left (Nat.le_of_lt hfinite)]
  exact UInt64.toNat_ofNat_of_lt' (Nat.lt_trans hfinite (by decide))

/-- How far a ratio of the interval may be from the number: `n` and `m * u` are the two, in units
of which `u` make the last place. -/
structure Within (n m u : Nat) (atPower : Prop) : Prop where
  low : 2 * (m * u) ≤ 2 * n + u
  high : 2 * n ≤ 2 * (m * u) + u
  odd : m % 2 = 1 → 2 * (m * u) < 2 * n + u ∧ 2 * n < 2 * (m * u) + u
  /-- Below a power of two the numbers lie twice as close. -/
  power : atPower → 4 * (m * u) ≤ 4 * n + u

theorem Covers.within {x : Binary64} {num den : Nat} (h : x.Covers num den) :
    Within (num * twoTo 1074) x.significand (twoTo x.scale * den)
      (x.significand = 0x10000000000000 ∧ 0 < x.scale) := by
  have hpow : twoTo 1076 = twoTo 2 * twoTo 1074 := twoTo_add 2 1074
  have hnum : num * twoTo 1076 = 4 * (num * twoTo 1074) := by
    rw [hpow, Nat.mul_left_comm]
    rfl
  unfold Covers interval at h
  simp only [hnum] at h
  generalize num * twoTo 1074 = n at *
  generalize twoTo x.scale * den = u at *
  generalize x.significand = m at *
  have hupper : (4 * m + 2) * u = 4 * (m * u) + 2 * u := by ring
  have hlower : (4 * m - 2) * u = 4 * (m * u) - 2 * u := by
    rw [Nat.sub_mul, Nat.mul_assoc]
  have hlower' : (4 * m - 1) * u = 4 * (m * u) - u := by
    rw [Nat.sub_mul, Nat.mul_assoc, Nat.one_mul]
  by_cases hp : m = 0x10000000000000 ∧ 0 < x.scale
  · have heven : (m % 2 == 0) = true := by rw [hp.1]; rfl
    rw [if_pos heven] at h
    simp only [if_pos hp, hupper, hlower'] at h
    exact ⟨by omega, by omega, fun hodd => by simp [hodd] at heven, fun _ => by omega⟩
  · simp only [if_neg hp, hupper, hlower] at h
    split at h
    · rename_i heven
      exact ⟨by omega, by omega, fun hodd => by simp [hodd] at heven, fun h => absurd h hp⟩
    · exact ⟨by omega, by omega, fun _ => by omega, fun h => absurd h hp⟩

/-- The exponent and the significand that rounding settles on. Just below a power of two these are
the exponent below and a significand that carries over. -/
theorem exists_rounded {n den m s : Nat} (hden : 0 < den) (hm : m < 2 ^ 53)
    (hs : 0 < s → 2 ^ 52 ≤ m)
    (h : Within n m (twoTo s * den) (m = 0x10000000000000 ∧ 0 < s)) :
    ∃ k r, (n / den).log2 - 52 = k ∧ roundDiv n (den * twoTo k) = r ∧
      k * 0x10000000000000 + r = s * 0x10000000000000 + m := by
  have hunit : 0 < twoTo s * den := Nat.mul_pos (twoTo_pos s) hden
  have hhigh : n < twoTo (52 + s + 1) * den := by
    have hstep : m * (twoTo s * den) ≤ (2 ^ 53 - 1) * (twoTo s * den) :=
      Nat.mul_le_mul_right _ (by omega)
    have hsplit : twoTo (52 + s + 1) * den = 2 ^ 53 * (twoTo s * den) := by
      rw [show 52 + s + 1 = 53 + s by omega, twoTo_add, Nat.mul_assoc]
      rfl
    have hbound := h.high
    rw [hsplit]
    omega
  have hsame : twoTo s * den = den * twoTo s := Nat.mul_comm _ _
  have hround : roundDiv n (den * twoTo s) = m := by
    rw [← hsame]
    exact roundDiv_eq hunit h.low h.high h.odd
  by_cases hlow : twoTo (52 + s) * den ≤ n
  · have hlog := log2_div_eq hlow hhigh hden
    exact ⟨s, m, by omega, hround, rfl⟩
  · cases s with
    | zero =>
      have hlog := log2_div_lt (k := 53) (by omega) hhigh hden
      exact ⟨0, m, by omega, hround, rfl⟩
    | succ s =>
      have hm := hs (by omega)
      have hdouble : twoTo (s + 1) * den = 2 * (twoTo s * den) := by
        rw [Nat.add_comm, twoTo_add, Nat.mul_assoc]
        rfl
      have hsplit : twoTo (52 + (s + 1)) * den = 2 ^ 52 * (twoTo (s + 1) * den) := by
        rw [twoTo_add, Nat.mul_assoc]
        rfl
      have hsplit' : twoTo (52 + s) * den = 2 ^ 52 * (twoTo s * den) := by
        rw [twoTo_add, Nat.mul_assoc]
        rfl
      have hpower : m = 0x10000000000000 := by
        have hstep : 2 ^ 52 + 1 ≤ m → (2 ^ 52 + 1) * (twoTo (s + 1) * den) ≤
            m * (twoTo (s + 1) * den) := Nat.mul_le_mul_right _
        have hbound := h.low
        omega
      have hnear := h.power ⟨hpower, by omega⟩
      rw [hsplit] at hlow
      rw [hpower, hdouble] at hnear
      rw [hdouble] at hlow hunit
      have hlog := log2_div_eq (n := n) (k := 52 + s) (by omega)
        (by rw [Nat.add_assoc, hsplit, hdouble]; omega) hden
      refine ⟨s, 2 ^ 53, by omega, ?_, by omega⟩
      rw [Nat.mul_comm]
      exact roundDiv_eq (by omega) (by omega) (by omega) (by omega)

/-- Every ratio in the interval of a number rounds to the number. -/
theorem nearest_of_covers {x : Binary64} (hx : x.isFinite) {num den : Nat} (hden : 0 < den)
    (h : x.Covers num den) : nearest num den = x.abs := by
  have hm := x.significand_lt
  have hs := scale_lt hx
  obtain ⟨k, r, hk, hround, hsum⟩ := exists_rounded hden hm le_significand h.within
  have hbits := nearest_bits hk hround (by omega)
  rw [hsum, ← abs_bits] at hbits
  exact eq_of_bits hbits

/-! ### The shortest decimal -/

/-- The decimal is one of the reals that round to the number. -/
def CoversDecimal (x : Binary64) (d : Decimal) : Prop :=
  x.Covers (d.digits * tenTo d.exponent.toNat) (tenTo (-d.exponent).toNat)

/-- The test that the search makes of a point of a grid. -/
def isInside (x : Binary64) (p : Int) (d : Nat) : Bool :=
  if x.interval.closed then
    x.interval.lower * (x.gridStep p).1 ≤ d * (x.gridStep p).2 &&
      d * (x.gridStep p).2 ≤ x.interval.upper * (x.gridStep p).1
  else
    x.interval.lower * (x.gridStep p).1 < d * (x.gridStep p).2 &&
      d * (x.gridStep p).2 < x.interval.upper * (x.gridStep p).1

theorem coversDecimal_iff {x : Binary64} {d : Nat} {p : Int} :
    x.CoversDecimal ⟨d, p⟩ ↔ x.isInside p d = true := by
  have hcomm : d * tenTo p.toNat * twoTo 1076 = d * (twoTo 1076 * tenTo p.toNat) := by
    rw [Nat.mul_assoc, Nat.mul_comm (tenTo _)]
  unfold CoversDecimal Covers isInside gridStep
  simp only [hcomm]
  split <;> simp

/-- The point below the number on a grid. -/
def floorPoint (x : Binary64) (p : Int) : Nat :=
  x.interval.value * (x.gridStep p).1 / (x.gridStep p).2

theorem onGrid_cases (tie : Tie) (x : Binary64) (p : Int) :
    (x.onGrid tie p = none ∧ x.isInside p (x.floorPoint p) = false ∧
        x.isInside p (x.floorPoint p + 1) = false) ∨
      ∃ d, x.onGrid tie p = some d ∧ x.isInside p d = true := by
  unfold onGrid
  dsimp only
  split
  case h_1 hlow hhigh => exact .inr ⟨_, rfl, hlow⟩
  case h_2 hlow hhigh => exact .inr ⟨_, rfl, hhigh⟩
  case h_3 hlow hhigh => exact .inl ⟨rfl, hlow, hhigh⟩
  case h_4 hlow hhigh =>
    right
    split
    · exact ⟨_, rfl, hlow⟩
    split
    · exact ⟨_, rfl, hhigh⟩
    cases tie with
    | up => exact ⟨_, rfl, hhigh⟩
    | toEven =>
      dsimp only
      split
      · exact ⟨_, rfl, hlow⟩
      · exact ⟨_, rfl, hhigh⟩

/-- A grid whose step is less than half the last place has a point in the interval: the first one
above the number. -/
theorem isInside_next {x : Binary64} {p : Int} (h : (x.gridStep p).2 < 2 * (x.gridStep p).1) :
    x.isInside p (x.floorPoint p + 1) = true := by
  have hpos : 0 < (x.gridStep p).2 := Nat.mul_pos (twoTo_pos _) (tenTo_pos _)
  have hdiv := Nat.div_add_mod' (x.interval.value * (x.gridStep p).1) (x.gridStep p).2
  have hmod := Nat.mod_lt (x.interval.value * (x.gridStep p).1) hpos
  have hlower : x.interval.lower * (x.gridStep p).1 ≤ x.interval.value * (x.gridStep p).1 := by
    refine Nat.mul_le_mul_right _ ?_
    simp only [interval]
    split <;> omega
  have hupper : x.interval.upper * (x.gridStep p).1 =
      x.interval.value * (x.gridStep p).1 + 2 * (x.gridStep p).1 := Nat.add_mul _ _ _
  have hnext : (x.floorPoint p + 1) * (x.gridStep p).2 =
      x.floorPoint p * (x.gridStep p).2 + (x.gridStep p).2 := Nat.add_one_mul _ _
  unfold isInside
  rw [hnext, hupper]
  unfold floorPoint
  generalize x.interval.value * (x.gridStep p).1 = v at *
  generalize x.interval.lower * (x.gridStep p).1 = l at *
  generalize (x.gridStep p).2 = den at *
  generalize v / den * den = q at *
  generalize v % den = r at *
  split <;> simp <;> omega

theorem search_covers {tie : Tie} {x : Binary64} {n : Nat} {p : Int}
    (h : ∃ j < n, (x.gridStep (p - j)).2 < 2 * (x.gridStep (p - j)).1) :
    x.CoversDecimal (search tie x n p) := by
  induction n generalizing p with
  | zero =>
    obtain ⟨j, hj, -⟩ := h
    omega
  | succ n ih =>
    unfold search
    rcases onGrid_cases tie x p with ⟨hnone, -, hnext⟩ | ⟨d, hsome, hinside⟩
    · rw [hnone]
      refine ih ?_
      obtain ⟨j, hj, hstep⟩ := h
      cases j with
      | zero =>
        rw [Nat.cast_zero, Int.sub_zero] at hstep
        rw [isInside_next hstep] at hnext
        cases hnext
      | succ j => exact ⟨j, by omega, by rw [show p - 1 - (j : Int) = p - (j + 1 : Nat) by omega]; exact hstep⟩
    · rw [hsome]
      exact coversDecimal_iff.mpr hinside

/-! ### Twenty grids suffice -/

theorem lt_tenTo_digitCount (n : Nat) : n < tenTo (Decimal.digitCount n) :=
  (Nat.length_toDigits_le_iff (by decide) Nat.length_toDigits_pos).mp (Nat.le_refl _)

theorem tenTo_digitCount_le {n : Nat} (hn : 0 < n) : tenTo (Decimal.digitCount n - 1) ≤ n := by
  by_cases hone : Decimal.digitCount n - 1 = 0
  · rw [hone]
    exact hn
  · have hlen : ¬ (Nat.toDigits 10 n).length ≤ Decimal.digitCount n - 1 := by
      unfold Decimal.digitCount at hone ⊢
      omega
    have hiff := Nat.length_toDigits_le_iff (b := 10) (n := n) (by decide) (Nat.pos_of_ne_zero hone)
    exact Nat.le_of_not_lt fun hlt => hlen (hiff.mpr hlt)

/-- The twentieth grid is finer than half the last place, since seventeen digits reach that far. -/
theorem coarsest_fine {x : Binary64} (hx : x.units ≠ 0) :
    (x.gridStep (x.coarsest - 19)).2 < 2 * (x.gridStep (x.coarsest - 19)).1 := by
  have hunits : x.units < 2 ^ 53 * twoTo x.scale :=
    Nat.mul_lt_mul_of_pos_right x.significand_lt (twoTo_pos _)
  have hpow : twoTo 1076 = twoTo 2 * twoTo 1074 := twoTo_add 2 1074
  have hfour : twoTo 2 = 4 := rfl
  have hone : 0 < twoTo 1074 := twoTo_pos 1074
  unfold gridStep coarsest
  simp only [hpow, hfour]
  generalize twoTo 1074 = one at *
  generalize twoTo x.scale = place at *
  generalize x.units = units at *
  split
  · rename_i hle
    have hdiv : 0 < units / one := Nat.div_pos hle hone
    have hlead : tenTo (Decimal.digitCount (units / one) - 1) * one ≤ units :=
      (Nat.le_div_iff_mul_le hone).mp (tenTo_digitCount_le hdiv)
    have hcount : 0 < Decimal.digitCount (units / one) := Nat.length_toDigits_pos
    generalize Decimal.digitCount (units / one) = count at *
    have hshift := tenTo_sub ((count : Int) - 1) 18
    rw [show (count : Int) - 1 - (18 : Nat) = count - 19 by omega,
      show (-((count : Int) - 1)).toNat = 0 by omega,
      show ((count : Int) - 1).toNat = count - 1 by omega] at hshift
    have hpos := tenTo_pos (-((count : Int) - 19)).toNat
    generalize tenTo (-((count : Int) - 19)).toNat = fine at *
    generalize tenTo ((count : Int) - 19).toNat = coarse at *
    have hscaled : 4 * one * coarse * tenTo 18 < 2 * (place * fine) * tenTo 18 := calc
      4 * one * coarse * tenTo 18 = 4 * one * (coarse * tenTo 18 * tenTo 0) := by
        rw [show tenTo 0 = 1 from rfl]; ring
      _ = 4 * (tenTo (count - 1) * one) * fine := by rw [hshift]; ring
      _ ≤ 4 * units * fine := by gcongr
      _ < 4 * (2 ^ 53 * place) * fine := Nat.mul_lt_mul_of_pos_right (by omega) hpos
      _ = 2 ^ 54 * (2 * (place * fine)) := by ring
      _ ≤ tenTo 18 * (2 * (place * fine)) := Nat.mul_le_mul_right _ (by decide)
      _ = 2 * (place * fine) * tenTo 18 := Nat.mul_comm _ _
    exact Nat.lt_of_mul_lt_mul_right hscaled
  · have hlead : one < tenTo (Decimal.digitCount (one / units)) * units :=
      (Nat.div_lt_iff_lt_mul (Nat.pos_of_ne_zero hx)).mp (lt_tenTo_digitCount _)
    have hcount : 0 < Decimal.digitCount (one / units) := Nat.length_toDigits_pos
    generalize Decimal.digitCount (one / units) = count at *
    rw [show (2 - (count : Int) - 19).toNat = 0 by omega,
      show (-(2 - (count : Int) - 19)).toNat = count + 17 by omega, tenTo_add]
    have hpos := tenTo_pos count
    generalize tenTo count = fine at *
    calc
      4 * one * tenTo 0 = 4 * one := Nat.mul_one _
      _ < 4 * (fine * units) := by gcongr
      _ ≤ 4 * (fine * (2 ^ 53 * place)) := by gcongr
      _ = 2 ^ 54 * (2 * (place * fine)) := by ring
      _ ≤ tenTo 17 * (2 * (place * fine)) := Nat.mul_le_mul_right _ (by decide)
      _ = 2 * (place * (fine * tenTo 17)) := by ring

theorem shortest_covers {x : Binary64} (hx : x.units ≠ 0) (tie : Tie) :
    x.CoversDecimal (x.shortest tie) := by
  unfold shortest
  rw [if_neg hx]
  exact search_covers ⟨19, by decide, coarsest_fine hx⟩

theorem abs_eq_zero {x : Binary64} (h : x.units = 0) : x.abs = zero := by
  have hsignificand : x.significand = 0 :=
    (Nat.mul_eq_zero.mp h).resolve_right (Nat.ne_of_gt (twoTo_pos _))
  have hscale : x.scale = 0 := by
    by_contra hne
    have hle := le_significand (Nat.pos_of_ne_zero hne)
    omega
  have hbits := abs_bits x
  rw [hsignificand, hscale] at hbits
  exact eq_of_bits hbits

theorem nearest_zero {den : Nat} (hden : 0 < den) : nearest 0 den = zero := by
  have hround : roundDiv (0 * twoTo 1074) (den * twoTo 0) = 0 :=
    roundDiv_eq (Nat.mul_pos hden (twoTo_pos 0)) (by omega) (by omega) (by omega)
  have hlog : (0 * twoTo 1074 / den).log2 - 52 = 0 := by
    rw [Nat.zero_mul, Nat.zero_div, Nat.log2_zero]
  exact eq_of_bits (nearest_bits hlog hround (by decide))

/-- The shortest decimal of a number is read as the number again. -/
theorem nearest_shortest {x : Binary64} (hx : x.isFinite) (tie : Tie) :
    nearest ((x.shortest tie).digits * tenTo (x.shortest tie).exponent.toNat)
      (tenTo (-(x.shortest tie).exponent).toNat) = x.abs := by
  by_cases hzero : x.units = 0
  · have hshortest : x.shortest tie = ⟨0, 0⟩ := if_pos hzero
    rw [abs_eq_zero hzero, hshortest, Nat.zero_mul]
    exact nearest_zero (tenTo_pos _)
  · exact nearest_of_covers hx (tenTo_pos _) (shortest_covers hzero tie)

/-- Only zero has no digits. -/
theorem shortest_digits_pos {x : Binary64} (hx : x.units ≠ 0) (tie : Tie) :
    0 < (x.shortest tie).digits := by
  have hlow := (shortest_covers hx tie).within.low
  have hunit : 0 < twoTo x.scale * tenTo (-(x.shortest tie).exponent).toNat :=
    Nat.mul_pos (twoTo_pos _) (tenTo_pos _)
  have hsignificand : x.significand ≠ 0 := fun h => hx (by rw [units, h, Nat.zero_mul])
  have hstep := Nat.mul_le_mul_right (twoTo x.scale * tenTo (-(x.shortest tie).exponent).toNat)
    (Nat.one_le_iff_ne_zero.mpr hsignificand)
  refine Nat.pos_of_ne_zero fun hzero => ?_
  rw [hzero, Nat.zero_mul, Nat.zero_mul] at hlow
  omega

end Binary64

end RpgLowering
