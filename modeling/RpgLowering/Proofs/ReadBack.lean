import RpgLowering.Proofs.ExpressionLexemes
import RpgLowering.Proofs.Grammar

/-! A printed expression is read back as the same expression, up to the two ways of writing a dotted
name. -/
namespace RpgLowering.Target

/-! ### The expression that is read -/

/-- A selection, where a name that is selected from a name makes one dotted name. -/
def Expr.select : Expr → String → Expr
  | .name text, n => .name (text ++ "." ++ n)
  | scope, n => .field scope n

mutual

/-- The expression with one dotted name for every chain of names. -/
def Expr.qualified : Expr → Expr
  | .int v => .int v
  | .double x => .double x
  | .string s => .string s
  | .this => .this
  | .name n => .name n
  | .field scope n => scope.qualified.select n
  | .assign target value => .assign target.qualified value.qualified
  | .binary op left right => .binary op left.qualified right.qualified
  | .increment e => .increment e.qualified
  | .call none n args => .call none n (Expr.qualifiedAll args)
  | .call (some scope) n args => .call (some scope.qualified) n (Expr.qualifiedAll args)

def Expr.qualifiedAll : List Expr → List Expr
  | [] => []
  | e :: es => e.qualified :: Expr.qualifiedAll es

end

mutual

/-- The expression without the widths of its integers. -/
def Term.toExpr : Term → Expr
  | .int v => .int v.toInt64
  | .long v => .int v
  | .real x => .double x
  | .string s => .string s
  | .this => .this
  | .name n => .name n
  | .field scope n => .field scope.toExpr n
  | .assign target value => .assign target.toExpr value.toExpr
  | .binary op left right => .binary op left.toExpr right.toExpr
  | .increment t => .increment t.toExpr
  | .call none n args => .call none n (Term.toExprs args)
  | .call (some scope) n args => .call (some scope.toExpr) n (Term.toExprs args)

def Term.toExprs : List Term → List Expr
  | [] => []
  | t :: ts => t.toExpr :: Term.toExprs ts

end

mutual

/-- What the text of an expression is read as. -/
def Expr.term : Expr → Term
  | .int v => if isWide v then .long v else .int (Int32.ofInt v.toInt)
  | .double x => .real x
  | .string s => .string s
  | .this => .this
  | .name n => .name n
  | .field scope n => scope.term.select n
  | .assign target value => .assign target.term value.term
  | .binary op left right => .binary op left.term right.term
  | .increment e => .increment e.term
  | .call none n args => .call none n (Expr.terms args)
  | .call (some scope) n args => .call (some scope.term) n (Expr.terms args)

def Expr.terms : List Expr → List Term
  | [] => []
  | e :: es => e.term :: Expr.terms es

end

theorem toInt_ofInt_of_narrow {v : Int64} (h : isWide v = false) :
    (Int32.ofInt v.toInt).toInt = v.toInt := by
  obtain ⟨hlow, hhigh⟩ := isWide_eq_false_iff.mp h
  exact Int32.toInt_ofInt_of_le hlow hhigh

theorem toExpr_select (t : Term) (n : String) : (t.select n).toExpr = t.toExpr.select n := by
  cases t with
  | call scope m args => cases scope <;> rfl
  | _ => rfl

mutual

theorem toExpr_term (e : Expr) : e.term.toExpr = e.qualified := by
  match e with
  | .int v =>
    rw [Expr.term, Expr.qualified]
    by_cases hwide : isWide v = true
    · rw [if_pos hwide, Term.toExpr]
    · have hnarrow : isWide v = false := by simpa using hwide
      rw [if_neg hwide, Term.toExpr]
      have hvalue : (Int32.ofInt v.toInt).toInt64 = v := by
        rw [← Int64.toInt_inj, Int32.toInt_toInt64, toInt_ofInt_of_narrow hnarrow]
      rw [hvalue]
  | .double x => rfl
  | .string s => rfl
  | .this => rfl
  | .name n => rfl
  | .field scope n => rw [Expr.term, Expr.qualified, toExpr_select, toExpr_term scope]
  | .assign target value =>
    rw [Expr.term, Expr.qualified, Term.toExpr, toExpr_term target, toExpr_term value]
  | .binary op left right =>
    rw [Expr.term, Expr.qualified, Term.toExpr, toExpr_term left, toExpr_term right]
  | .increment e => rw [Expr.term, Expr.qualified, Term.toExpr, toExpr_term e]
  | .call none n args => rw [Expr.term, Expr.qualified, Term.toExpr, toExprs_terms args]
  | .call (some scope) n args =>
    rw [Expr.term, Expr.qualified, Term.toExpr, toExpr_term scope, toExprs_terms args]

theorem toExprs_terms (es : List Expr) : Term.toExprs (Expr.terms es) = Expr.qualifiedAll es := by
  match es with
  | [] => rfl
  | e :: es => rw [Expr.terms, Expr.qualifiedAll, Term.toExprs, toExpr_term e, toExprs_terms es]

end

/-! ### Levels and precedences -/

/-- The greatest level of an operator whose operand the expression may be. -/
def Expr.level : Expr → Nat
  | .assign .. => Operator.assign.level
  | .binary op .. => (Operator.binary op).level
  | _ => 4

/-- Operators from this level on do not end the expression. -/
def Expr.limit : Expr → Nat
  | .assign .. => Operator.assign.rightLevel
  | .binary op .. => (Operator.binary op).rightLevel
  | _ => 4

theorem lexeme_operator (op : BinaryOp) : (Operator.binary op).lexeme = op.lexeme := by
  cases op <;> rfl

/-- The levels agree with the precedences: an operand that is printed without parentheses on the left
of an operator, or with `k = 1` on its right, is read as one. -/
theorem level_operand (op : BinaryOp) {k : Nat} (hk : k ≤ 1) {e : Expr}
    (h : op.precedence + k ≤ e.precedence) :
    (Operator.binary op).level + k ≤ e.level ∧ (Operator.binary op).level + 1 ≤ e.limit := by
  have hlevel := (Operator.binary op).level_lt
  cases e with
  | assign target value =>
    have hlow : (Expr.assign target value).precedence < op.precedence := by
      rw [Expr.precedence]
      cases op <;> decide
    omega
  | binary op' left right =>
    rw [Expr.precedence] at h
    rw [Expr.level, Expr.limit]
    revert h
    obtain rfl | rfl : k = 0 ∨ k = 1 := by omega
    · cases op <;> cases op' <;> decide
    · cases op <;> cases op' <;> decide
  | _ => exact ⟨show (Operator.binary op).level + k ≤ 4 by omega, hlevel⟩

/-! ### Reading the lexemes of an expression -/

/-- The lexemes of the expression are read as the expression, whatever may follow. -/
structure Expr.ReadsBack (e : Expr) : Prop where
  reads : Reads e.level e.limit e.term e.lexemes
  primary : e.precedence = Precedence.primary → ReadsPrimary e.term e.lexemes

namespace Expr.ReadsBack

theorem of_primary {e : Expr} (h : ReadsPrimary e.term e.lexemes) : e.ReadsBack :=
  ⟨h.reads _ _, fun _ => h⟩

/-- An operand in its place, with parentheses if it binds less tightly. -/
theorem wrap {e : Expr} (h : e.ReadsBack) {least i j : Nat}
    (hleast : least ≤ e.precedence → i ≤ e.level ∧ j ≤ e.limit) :
    Reads i j e.term (wrapLexemes least e e.lexemes) := by
  unfold wrapLexemes
  by_cases hlow : e.precedence < least
  · rw [if_pos hlow]
    exact h.reads.paren.reads i j
  · rw [if_neg hlow]
    obtain ⟨hi, hj⟩ := hleast (Nat.not_lt.mp hlow)
    exact h.reads.mono hi hj

theorem scope {e : Expr} (h : e.ReadsBack) :
    ReadsPrimary e.term (wrapLexemes Precedence.primary e e.lexemes) := by
  unfold wrapLexemes
  by_cases hlow : e.precedence < Precedence.primary
  · rw [if_pos hlow]
    exact h.reads.paren
  · rw [if_neg hlow]
    exact h.primary (Nat.le_antisymm (precedence_bounds e).2 (Nat.not_lt.mp hlow))

end Expr.ReadsBack

theorem literal?_int (v : Int64) :
    literal? (decide (v.toInt < 0)) (.integer v.toInt.natAbs (isWide v)) = some (Expr.int v).term := by
  have hlow := v.le_toInt
  have hhigh := v.toInt_lt
  have hsigned : (if v.toInt < 0 then -(v.toInt.natAbs : Int) else v.toInt.natAbs) = v.toInt := by
    split <;> omega
  cases hwide : isWide v with
  | false =>
    obtain ⟨hlow', hhigh'⟩ := isWide_eq_false_iff.mp hwide
    have hfits : v.toInt.natAbs < 0x80000000 + (decide (v.toInt < 0)).toNat := by
      by_cases hneg : v.toInt < 0 <;> simp [hneg] <;> omega
    simp only [literal?, if_pos hfits, decide_eq_true_eq, hsigned, Expr.term, hwide]
    rfl
  | true =>
    have hfits : v.toInt.natAbs < 0x8000000000000000 + (decide (v.toInt < 0)).toNat := by
      by_cases hneg : v.toInt < 0 <;> simp [hneg] <;> omega
    simp only [literal?, if_pos hfits, decide_eq_true_eq, hsigned, Expr.term, hwide, if_true,
      Int64.ofInt_toInt]

/-- A number, perhaps with a minus sign, by which it is no longer primary. -/
theorem readsBack_literal {e : Expr} {negative : Bool} {l : Lexeme}
    (hlexemes : e.lexemes = signedLexemes negative l) (hliteral : literal? negative l = some e.term)
    (hprecedence : negative = true → e.precedence ≠ Precedence.primary) : e.ReadsBack := by
  cases negative with
  | true =>
    refine ⟨?_, fun h => absurd h (hprecedence rfl)⟩
    rw [hlexemes]
    exact reads_signed hliteral _ _
  | false =>
    refine .of_primary ?_
    rw [hlexemes]
    exact readsPrimary_single fun n rest _ => primary_literal hliteral n rest

theorem readsBack_int (v : Int64) : (Expr.int v).ReadsBack := by
  refine readsBack_literal rfl (literal?_int v) fun hneg => ?_
  rw [Expr.precedence, if_pos (Int64.lt_iff_toInt_lt.mpr (of_decide_eq_true hneg))]
  decide

theorem neg_abs {x : Binary64} (h : x.isNegative = true) : x.abs.neg = x := by
  have hneg : 0x8000000000000000 ≤ x.bits.toNat := by simpa [Binary64.isNegative] using h
  apply Binary64.eq_of_bits
  have hlt := x.bits.toNat_lt
  simp [Binary64.neg, Binary64.abs, UInt64.toNat_add, UInt64.toNat_mod]
  omega

theorem abs_of_not_isNegative {x : Binary64} (h : x.isNegative = false) : x.abs = x := by
  have hpos : x.bits.toNat < 0x8000000000000000 := by simpa [Binary64.isNegative] using h
  apply Binary64.eq_of_bits
  simp [Binary64.abs, UInt64.toNat_mod]
  omega

theorem readsBack_double {x : Binary64} (hx : x.isFinite = true) : (Expr.double x).ReadsBack := by
  have hliteral : literal? x.isNegative (.real x.abs) = some (Expr.double x).term := by
    cases hneg : x.isNegative with
    | true => simp [literal?, neg_abs hneg, Expr.term]
    | false => simp [literal?, abs_of_not_isNegative hneg, Expr.term]
  refine readsBack_literal rfl hliteral fun hneg => ?_
  rw [Expr.precedence, hneg, hx]
  decide

theorem dottedLexemes_cons (word : List Char) (words : List (List Char)) :
    dottedLexemes (word :: words) = [.word (String.ofList word)] ++
      words.flatMap fun w => [.dot, .word (String.ofList w)] := by
  induction words generalizing word with
  | nil => rfl
  | cons w words ih =>
    rw [dottedLexemes, ih w]
    · simp
    · exact List.cons_ne_nil _ _

theorem intercalate_cons_flatMap (word : List Char) (words : List (List Char)) :
    ['.'].intercalate (word :: words) = word ++ words.flatMap ('.' :: ·) := by
  induction words generalizing word with
  | nil => simp
  | cons w words ih => rw [List.intercalate_cons_cons, ih w]; simp

theorem readsPrimary_name (n : String) :
    ReadsPrimary (.name n) (dottedLexemes (n.toList.splitOn '.')) := by
  have htext : ['.'].intercalate (n.toList.splitOn '.') = n.toList := List.intercalate_splitOn '.'
  cases hwords : n.toList.splitOn '.' with
  | nil => exact absurd hwords (List.splitOn_ne_nil _ _)
  | cons word words =>
    have hword : ReadsPrimary (.name (String.ofList word)) [.word (String.ofList word)] :=
      readsPrimary_single fun k rest hrest => primary_word hrest k _
    have hall := hword.names words
    rw [hwords, intercalate_cons_flatMap] at htext
    rw [htext, String.ofList_toList] at hall
    rw [dottedLexemes_cons]
    exact hall

theorem items_argLexemes (e : Expr) (es : List Expr) (h : ∀ a ∈ e :: es, a.ReadsBack)
    (rest : List Lexeme) : ∀ n ≥ 6 * (Expr.argLexemes (e :: es)).length + 5,
    items n (Expr.argLexemes (e :: es) ++ .closeParen :: rest) = some (Expr.terms (e :: es), rest) := by
  induction es generalizing e with
  | nil =>
    simp only [Expr.argLexemes, Expr.moreLexemes, List.append_nil, Expr.terms]
    exact (h e List.mem_cons_self).reads.item rest
  | cons e' es ih =>
    intro n hn
    have htail := ih e' fun a ha => h a (List.mem_cons_of_mem _ ha)
    have hlexemes : Expr.argLexemes (e :: e' :: es) =
        e.lexemes ++ .comma :: Expr.argLexemes (e' :: es) := rfl
    rw [hlexemes, List.length_append, List.length_cons] at hn
    obtain ⟨n, rfl⟩ := Nat.exists_eq_add_of_le' (show 1 ≤ n by omega)
    rw [hlexemes, List.append_assoc, List.cons_append]
    exact (h e List.mem_cons_self).reads.items (by omega) (htail n (by omega))

theorem readsArguments {args : List Expr} (h : ∀ a ∈ args, a.ReadsBack) :
    ReadsArguments (Expr.terms args) (Expr.argLexemes args) := by
  intro rest n hn
  obtain ⟨n, rfl⟩ := Nat.exists_eq_add_of_le' (show 1 ≤ n by omega)
  cases args with
  | nil => rfl
  | cons e es => exact arguments_items (items_argLexemes e es h rest n (by omega))

section
variable {L : Letters}

mutual

theorem readsBack (e : Expr) (he : e.Readable L) : e.ReadsBack := by
  match e with
  | .int v => exact readsBack_int v
  | .double x => exact readsBack_double he
  | .string s => exact .of_primary (readsPrimary_single fun n rest _ => rfl)
  | .this => exact .of_primary (readsPrimary_single fun n rest _ => rfl)
  | .name n => exact .of_primary (readsPrimary_name n)
  | .field scope n => exact .of_primary ((readsBack scope he.2.1).scope.select n)
  | .assign target value =>
    have htarget := (readsBack target he.1).scope.reads 0 1
    have hvalue := (readsBack value he.2).reads.mono (Nat.zero_le _) (Nat.zero_le _)
    have hjoin := Reads.join (o := .assign) htarget hvalue
    exact ⟨hjoin, fun h => absurd h (by rw [Expr.precedence]; decide)⟩
  | .binary op left right =>
    have hleft := (readsBack left he.1).wrap (level_operand op (Nat.zero_le 1))
    have hright := (readsBack right he.2).wrap (level_operand op le_rfl)
    have hjoin := Reads.join (o := .binary op) hleft hright
    rw [lexeme_operator] at hjoin
    exact ⟨hjoin, fun h => absurd h (by rw [Expr.precedence]; cases op <;> decide)⟩
  | .increment e =>
    have hoperand := (readsBack e he).scope
    exact ⟨hoperand.increment _ _, fun h => absurd h (by rw [Expr.precedence]; decide)⟩
  | .call none n args =>
    exact .of_primary (readsPrimary_call n (readsArguments (readsBack_all args he.2)))
  | .call (some scope) n args =>
    have hargs := readsArguments (readsBack_all args he.2.2.2)
    exact .of_primary ((readsBack scope he.2.1).scope.call n hargs)

theorem readsBack_all (es : List Expr) (hes : Expr.AllReadable L es) : ∀ e ∈ es, e.ReadsBack := by
  match es with
  | [] => exact nofun
  | e :: es =>
    rw [List.forall_mem_cons]
    exact ⟨readsBack e hes.1, readsBack_all es hes.2⟩

end

theorem read_text_eq_term {e : Expr} (he : e.Readable L) : Term.read L e.text = some e.term := by
  have hwhole := (readsBack e he).reads.whole (Nat.zero_le _) (Nat.zero_le _) (stops_nil 0)
    (6 * e.lexemes.length + 4) le_rfl
  rw [List.append_nil] at hwhole
  simp [Term.read, lexemes_text he, hwhole]

/-- The text of an expression is read, to its end, as the expression itself. -/
theorem read_text {e : Expr} (he : e.Readable L) :
    (Term.read L e.text).map Term.toExpr = some e.qualified := by
  rw [read_text_eq_term he, Option.map_some, toExpr_term]

end

theorem read_text_println :
    (Term.read .ascii "System.out.println(\"a\\n\" + (-1 + this.N++), x = 2147483648L == 1.5)").map
      Term.toExpr = some (.call (some (.name "System.out")) "println"
        [.binary .plus (.string "a\n") (.binary .plus (.int (-1)) (.increment (.field .this "N"))),
          .assign (.name "x") (.binary .equals (.int 2147483648) (.double ⟨0x3ff8000000000000⟩))]) := by
  have htext : (Expr.call (some (.field (.name "System") "out")) "println"
      [.binary .plus (.string "a\n") (.binary .plus (.int (-1)) (.increment (.field .this "N"))),
        .assign (.name "x") (.binary .equals (.int 2147483648) (.double ⟨0x3ff8000000000000⟩))]).text =
      "System.out.println(\"a\\n\" + (-1 + this.N++), x = 2147483648L == 1.5)" := by
    decide +kernel
  rw [← htext]
  have hdotted : Letters.ascii.Dotted "System" := by decide +kernel
  have hx : Letters.ascii.Dotted "x" := by decide +kernel
  exact read_text ⟨rfl, ⟨rfl, hdotted, by decide +kernel⟩, by decide +kernel,
    ⟨trivial, trivial, rfl, trivial, by decide +kernel⟩, ⟨hx, trivial, rfl⟩, trivial⟩

end RpgLowering.Target
