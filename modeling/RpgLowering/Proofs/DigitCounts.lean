import RpgLowering.Proofs.HandOff
import RpgLowering.Proofs.Rounding
import RpgLowering.Proofs.TypeQuery

/-! The digits of a number's static type. They are those of one leaf of the expression, the one at
the end of the left operands of `+` and `-`. The digits of a literal are counted, those of data are
declared, and those of `%DEC` are written out, but kept modulo 2^32. -/
namespace RpgLowering.Source

/-! ### Counting digits -/

/-- A number is written with `k` decimal digits. Zero takes one digit. -/
def HasDigits (n k : Nat) : Prop := n < 10 ^ k ∧ (k = 1 ∨ 10 ^ (k - 1) ≤ n)

namespace HasDigits
variable {n j k : Nat}

theorem pos (h : HasDigits n k) : 0 < k := by
  by_contra hk
  obtain rfl : k = 0 := by omega
  obtain ⟨hlt, hone | hge⟩ := h
  · cases hone
  · exact absurd (Nat.lt_of_le_of_lt hge hlt) (by decide)

theorem le (h : HasDigits n j) (hk : 0 < k) (hlt : n < 10 ^ k) : j ≤ k := by
  rcases h.2 with hone | hge
  · omega
  · have hpow : 10 ^ (j - 1) < 10 ^ k := Nat.lt_of_le_of_lt hge hlt
    have hexp : j - 1 < k := (Nat.pow_lt_pow_iff_right (by decide)).mp hpow
    omega

theorem unique (hj : HasDigits n j) (hk : HasDigits n k) : j = k :=
  Nat.le_antisymm (hj.le hk.pos hk.1) (hk.le hj.pos hj.1)

theorem digitCount (n : Nat) : HasDigits n (Decimal.digitCount n) := by
  refine ⟨Binary64.lt_tenTo_digitCount n, ?_⟩
  by_cases hn : n = 0
  · subst hn
    exact .inl rfl
  · exact .inr (Binary64.tenTo_digitCount_le (Nat.pos_of_ne_zero hn))

end HasDigits

theorem intType_eq_number {v : Int64} {entire decimals : UInt32} :
    intType v = .number entire decimals ↔
      HasDigits v.toInt.natAbs entire.toNat ∧ decimals = 0 := by
  -- nineteen digits are enough for 64 bits, so the count fits
  have hcount := HasDigits.digitCount v.toInt.natAbs
  have hlow := v.le_toInt
  have hhigh := v.toInt_lt
  have hfits : Decimal.digitCount v.toInt.natAbs ≤ 19 := hcount.le (by decide) (by omega)
  have hkept : (Decimal.digitCount v.toInt.natAbs).toUInt32.toNat =
      Decimal.digitCount v.toInt.natAbs := by
    rw [Nat.toUInt32_eq, UInt32.toNat_ofNat', Nat.mod_eq_of_lt (by omega)]
  simp only [intType, Ty.number.injEq]
  constructor
  · intro h
    obtain ⟨rfl, rfl⟩ := h
    rw [hkept]
    exact ⟨hcount, rfl⟩
  · intro h
    refine ⟨?_, h.2.symm⟩
    rw [← UInt32.toNat_inj, hkept]
    exact hcount.unique h.1

/-! ### The leaf that gives the digits -/

/-- The end of the left operands of `+` and `-`. -/
def Expr.leftLeaf : Expr → Expr
  | .binary span op left right =>
    match op with
    | .plus | .minus => left.leftLeaf
    | op => .binary span op left right
  | e => e

/-- The digits that a leaf gives to the type of a number. -/
inductive NumberLeaf (u : CompilationUnit) : Expr → UInt32 → UInt32 → Prop where
  | literal {span v entire} : HasDigits v.toInt.natAbs entire.toNat →
      NumberLeaf u (.int span v) entire 0
  | length {span e} : NumberLeaf u (.unary span .len e) 10 0
  | data {span r id d entire decimals} : r.referred = some id → u.declaration? id = some d →
      d.ty = .number entire decimals → NumberLeaf u (.data span r) entire decimals
  | dec {span value place digits place' places entire decimals} : 0 ≤ places → places ≤ digits →
      (entire.toNat : Int) = (digits.toInt - places.toInt) % 2 ^ 32 →
      (decimals.toNat : Int) = places.toInt % 2 ^ 32 →
      NumberLeaf u (.dec span value (.int place digits) (.int place' places)) entire decimals

variable {u : CompilationUnit} {entire decimals : UInt32}

theorem typeOf_eq_ok {r : Reference DataId} {t : Ty} :
    u.typeOf r = .ok t ↔ ∃ id d, r.referred = some id ∧ u.declaration? id = some d ∧ d.ty = t := by
  unfold CompilationUnit.typeOf
  cases r.referred with
  | none => simp
  | some id => cases hd : u.declaration? id <;> simp [hd]

theorem joinTypes_eq_number {t : Ty} {other : Except TypeError Ty} :
    joinTypes t other = .number entire decimals ↔ t = .number entire decimals := by
  unfold joinTypes
  split
  · simp
  · rfl

theorem decType_literals {place place' : Option Span} {digits places : Int64} :
    decType (.int place digits) (.int place' places) = .ok (.number entire decimals) ↔
      0 ≤ places ∧ places ≤ digits ∧
      (entire.toNat : Int) = (digits.toInt - places.toInt) % 2 ^ 32 ∧
      (decimals.toNat : Int) = places.toInt % 2 ^ 32 := by
  by_cases h : places ≤ digits ∧ 0 ≤ places
  · have hplaces : 0 ≤ places.toInt := Int64.le_iff_toInt_le.mp h.2
    have hdigits : places.toInt ≤ digits.toInt := Int64.le_iff_toInt_le.mp h.1
    rw [decType, if_pos h, Except.ok.injEq, Ty.number.injEq, ← UInt32.toNat_inj, ← UInt32.toNat_inj]
    simp only [Nat.toUInt32_eq, UInt32.toNat_ofNat', h.1, h.2, true_and]
    omega
  · rw [decType, if_neg h]
    constructor
    · intro hok
      cases hok
    · intro hok
      exact absurd ⟨hok.2.1, hok.1⟩ h

/-- A type of a number has the digits of the leaf. -/
theorem staticType_eq_number {e : Expr} (he : e.NoReal) :
    e.staticType u = .ok (.number entire decimals) ↔ NumberLeaf u e.leftLeaf entire decimals := by
  induction e with
  | int span v =>
    rw [Expr.staticType, Except.ok.injEq, intType_eq_number]
    constructor
    · intro h
      obtain ⟨hdigits, rfl⟩ := h
      exact .literal hdigits
    · intro h
      cases h with
      | literal hdigits => exact ⟨hdigits, rfl⟩
  | real => exact he.elim
  | data span r =>
    rw [Expr.staticType, typeOf_eq_ok]
    constructor
    · intro h
      obtain ⟨id, d, hr, hd, hty⟩ := h
      exact .data hr hd hty
    · intro h
      cases h with
      | data hr hd hty => exact ⟨_, _, hr, hd, hty⟩
  | binary span op left right ihl ihr =>
    cases op with
    | plus =>
      rw [Expr.leftLeaf, ← ihl he.1, Expr.staticType, bind_eq_ok]
      constructor
      · intro h
        obtain ⟨t, ht, hjoin⟩ := h
        rw [ht, joinTypes_eq_number.mp (Except.ok.inj hjoin)]
      · intro h
        exact ⟨_, h, congrArg _ (joinTypes_eq_number.mpr rfl)⟩
    | minus => exact ihl he.1
    | _ =>
      constructor
      · intro h
        cases h
      · intro h
        cases h
  | unary span op e ih =>
    cases op with
    | len =>
      constructor
      · intro h
        cases h
        exact .length
      · intro h
        cases h
        rfl
    | _ =>
      constructor
      · intro h
        cases h
      · intro h
        cases h
  | dec span value digits places =>
    rw [Expr.staticType]
    constructor
    · intro h
      by_cases hliteral : LiteralDigits digits places
      · obtain ⟨place, D, place', P, rfl, rfl, -⟩ := hliteral
        obtain ⟨hplaces, hdigits, hentire, hdecimals⟩ := decType_literals.mp h
        exact .dec hplaces hdigits hentire hdecimals
      · rw [decType_of_not_literalDigits hliteral] at h
        cases h
    · intro h
      cases h with
      | dec hplaces hdigits hentire hdecimals =>
        exact decType_literals.mpr ⟨hplaces, hdigits, hentire, hdecimals⟩
  | _ =>
    constructor
    · intro h
      cases h
    · intro h
      cases h

/-- The digits of `%DEC` are those written, as far as both parts of them fit into 32 bits. -/
theorem NumberLeaf.exact_iff {span place place' : Option Span} {value : Expr}
    {digits places : Int64}
    (h : NumberLeaf u (.dec span value (.int place digits) (.int place' places)) entire decimals) :
    (entire.toNat : Int) + decimals.toNat = digits.toInt ∧ (decimals.toNat : Int) = places.toInt ↔
      digits.toInt - places.toInt < 2 ^ 32 ∧ places.toInt < 2 ^ 32 := by
  cases h with
  | dec hplaces hdigits hentire hdecimals =>
    rw [Int64.le_iff_toInt_le] at hplaces hdigits
    rw [Int64.toInt_zero] at hplaces
    have hsmall := entire.toNat_lt
    have hsmall' := decimals.toNat_lt
    omega

/-- The type of a number has the digits of the leaf: those of a literal are counted exactly, `%LEN`
has ten, and data has those declared. For `%DEC` they are exact just if both parts of the digits
written fit into 32 bits. -/
theorem number_digits (u : CompilationUnit) {e : Expr} (he : e.NoReal)
    (entire decimals : UInt32) :
    (e.staticType u = .ok (.number entire decimals) ↔ NumberLeaf u e.leftLeaf entire decimals) ∧
    ∀ span value place digits place' places,
      e.leftLeaf = .dec span value (.int place digits) (.int place' places) →
      e.staticType u = .ok (.number entire decimals) →
      ((entire.toNat : Int) + decimals.toNat = digits.toInt ∧
          (decimals.toNat : Int) = places.toInt ↔
        digits.toInt - places.toInt < 2 ^ 32 ∧ places.toInt < 2 ^ 32) := by
  refine ⟨staticType_eq_number he, ?_⟩
  intro span value place digits place' places hleaf hty
  have hnumber := (staticType_eq_number he).mp hty
  rw [hleaf] at hnumber
  exact hnumber.exact_iff

/-- The smallest 64-bit integer has nineteen digits, whatever is added or taken away. -/
theorem number_digits_smallest :
    let e : Expr := .binary none .plus
      (.binary none .minus (.int none Int64.minValue) (.boolean none true)) (.string none "A")
    e.NoReal ∧ e.staticType {} = .ok (.number 19 0) := by
  intro e
  have he : e.NoReal := ⟨⟨trivial, trivial⟩, trivial⟩
  have hdigits : HasDigits Int64.minValue.toInt.natAbs 19 := by
    unfold HasDigits
    decide
  exact ⟨he, (number_digits {} he 19 0).1.mpr (.literal hdigits)⟩

/-- With 2^32 + 1 digits written, the type has one. -/
theorem staticType_wideDec :
    let e : Expr := .dec none (.string none "1") (.int none 4294967297) (.int none 0)
    e.NoReal ∧ e.staticType {} = .ok (.number 1 0) ∧
      ((1 : UInt32).toNat : Int) + (0 : UInt32).toNat ≠ (4294967297 : Int64).toInt := by
  intro e
  refine ⟨⟨trivial, trivial, trivial⟩, rfl, ?_⟩
  decide

end RpgLowering.Source
