import RpgLowering.Source.Typing

/-! The static type of a concatenation. Lengths are added up to the widest one at every `+`, and the
result is the sum of all lengths, cut once: it depends on the operands and their order, and not on
the brackets between them. -/
namespace RpgLowering.Source

/-- The operands of a tree of `+`, from left to right. -/
def Expr.operands : Expr → List Expr
  | .binary span op left right =>
    match op with
    | .plus => left.operands ++ right.operands
    | op => [.binary span op left right]
  | e => [e]

/-- The length of a type of texts. -/
def Ty.length : Ty → Nat
  | .string n _ => n.toNat
  | _ => 0

section
variable (u : CompilationUnit)

def Expr.IsText (x : Expr) : Prop := ∃ n varying, x.staticType u = .ok (.string n varying)

/-- The length of an expression that is a text. -/
def Expr.textLength (x : Expr) : Nat := (x.staticType u).toOption.elim 0 Ty.length

/-- The lengths of texts that stand side by side. -/
def totalLength : List Expr → Nat
  | [] => 0
  | x :: xs => x.textLength u + totalLength xs

end

/-- A length as far as it fits. -/
def clipped (n : Nat) : UInt32 := (min n widest32).toUInt32

theorem toNat_clipped (n : Nat) : (clipped n).toNat = min n widest32 := by
  have hfits : min n widest32 < UInt32.size := by
    unfold widest32 UInt32.size
    omega
  rw [clipped, Nat.toUInt32_eq, UInt32.toNat_ofNat', Nat.mod_eq_of_lt hfits]

theorem clipped_toNat (n : UInt32) : clipped n.toNat = n := by
  have hn := n.toNat_lt
  rw [← UInt32.toNat_inj, toNat_clipped, widest32]
  omega

/-- Cutting twice is cutting once, so the order in which lengths are added does not matter. -/
theorem addLengths_clipped (m n : Nat) : addLengths (clipped m) (clipped n) = clipped (m + n) := by
  have hsum : min ((clipped m).toNat + (clipped n).toNat) widest32 = min (m + n) widest32 := by
    rw [toNat_clipped, toNat_clipped]
    omega
  rw [addLengths, hsum, clipped]

variable {u : CompilationUnit}

theorem totalLength_append (xs ys : List Expr) :
    totalLength u (xs ++ ys) = totalLength u xs + totalLength u ys := by
  induction xs with
  | nil => simp [totalLength]
  | cons x xs ih => rw [List.cons_append, totalLength, totalLength, ih, Nat.add_assoc]

theorem totalLength_singleton {x : Expr} {n : UInt32} {varying : Bool}
    (h : x.staticType u = .ok (.string n varying)) : totalLength u [x] = n.toNat := by
  simp [totalLength, Expr.textLength, h, Except.toOption, Ty.length]

/-- The expression is a text: as long as its operands together, and varying as the first of them. -/
def Expr.Joins (u : CompilationUnit) (e : Expr) : Prop := ∃ x n varying,
  e.operands.head? = some x ∧ x.staticType u = .ok (.string n varying) ∧
    e.staticType u = .ok (.string (clipped (totalLength u e.operands)) varying)

theorem joins_operand {e : Expr} (he : e.operands = [e])
    (h : ∀ x ∈ e.operands, x.IsText u) : e.Joins u := by
  rw [he] at h
  obtain ⟨n, varying, hty⟩ := h e List.mem_cons_self
  refine ⟨e, n, varying, by rw [he]; rfl, hty, ?_⟩
  rw [he, totalLength_singleton hty, clipped_toNat, hty]

theorem joins_plus {left right : Expr} (hl : left.Joins u) (hr : right.Joins u)
    (span : Option Span) : (Expr.binary span .plus left right).Joins u := by
  obtain ⟨x, n, varying, hfirst, hx, hleft⟩ := hl
  obtain ⟨-, -, varying', -, -, hright⟩ := hr
  refine ⟨x, n, varying, ?_, hx, ?_⟩
  · rw [Expr.operands, List.head?_append, hfirst]
    rfl
  · rw [Expr.staticType, hleft, hright, Expr.operands, totalLength_append, ← addLengths_clipped]
    rfl

theorem joins_of_texts {e : Expr} (h : ∀ x ∈ e.operands, x.IsText u) : e.Joins u := by
  induction e with
  | binary span op left right ihl ihr =>
    cases op with
    | plus =>
      have hleft := ihl fun x hx => h x (List.mem_append_left _ hx)
      have hright := ihr fun x hx => h x (List.mem_append_right _ hx)
      exact joins_plus hleft hright span
    | _ => exact joins_operand rfl h
  | _ => exact joins_operand rfl h

/-- A tree of `+` over texts is a text, as long as all of them together unless that is too long, and
varying as the first of them. Every other way of bracketing the same operands has the same type. -/
theorem staticType_concatenation {e : Expr} (h : ∀ x ∈ e.operands, x.IsText u) :
    (∃ x n length varying, e.operands.head? = some x ∧ x.staticType u = .ok (.string n varying) ∧
      e.staticType u = .ok (.string length varying) ∧
      length.toNat = min 4294967295 (totalLength u e.operands)) ∧
    ∀ e' : Expr, e'.operands = e.operands → e'.staticType u = e.staticType u := by
  obtain ⟨x, n, varying, hfirst, hx, hty⟩ := joins_of_texts h
  constructor
  · refine ⟨x, n, _, varying, hfirst, hx, hty, ?_⟩
    rw [toNat_clipped, Nat.min_comm]
    rfl
  · intro e' he'
    rw [← he'] at h
    obtain ⟨x', n', varying', hfirst', hx', hty'⟩ := joins_of_texts h
    rw [he', hfirst] at hfirst'
    obtain rfl := Option.some.inj hfirst'
    rw [hx] at hx'
    obtain ⟨-, rfl⟩ := Ty.string.inj (Except.ok.inj hx')
    rw [hty', hty, he']

/-- Three texts of which the first two together are already too long for any length, and of which
only the first has a fixed length. -/
theorem staticType_concatenation_wide :
    let u : CompilationUnit :=
      { data := [{ id := ⟨1⟩, name := "A", ty := .string 4294967290 false },
          { id := ⟨2⟩, name := "B", ty := .string 10 true }] }
    let a : Expr := .data none ⟨"A", some ⟨1⟩⟩
    let b : Expr := .data none ⟨"B", some ⟨2⟩⟩
    let c : Expr := .unary none .trim b
    let e : Expr := .binary none .plus (.binary none .plus a b) c
    (∀ x ∈ e.operands, x.IsText u) ∧ e.staticType u = .ok (.string 4294967295 false) ∧
      (Expr.binary none .plus a (.binary none .plus b c)).staticType u = e.staticType u := by
  intro u a b c e
  have htexts : ∀ x ∈ e.operands, x.IsText u := by
    have hall : e.operands = [a, b, c] := rfl
    rw [hall, List.forall_mem_cons, List.forall_mem_cons, List.forall_mem_singleton]
    exact ⟨⟨_, _, rfl⟩, ⟨_, _, rfl⟩, ⟨_, _, rfl⟩⟩
  exact ⟨htexts, rfl, (staticType_concatenation htexts).2 _ rfl⟩

end RpgLowering.Source
