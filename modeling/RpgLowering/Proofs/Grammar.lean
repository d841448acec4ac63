import RpgLowering.Proofs.Lexemes

/-! Reading expressions from lexemes: operators bind by level, assignment to the right and the others
to the left; a minus sign belongs to a number; `++`, selection and calls follow a primary expression. -/
namespace RpgLowering.Target

/-- An expression as it is read, where an integer without suffix has 32 bits. -/
inductive Term where
  | int (value : Int32)
  | long (value : Int64)
  | real (value : Binary64)
  | string (value : String)
  | this
  | name (text : String)
  | field (scope : Term) (name : String)
  | assign (target value : Term)
  | binary (op : BinaryOp) (left right : Term)
  | increment (operand : Term)
  | call (scope : Option Term) (name : String) (args : List Term)
  deriving Inhabited

/-- What a point and a word after a term select: after a name, a longer name. -/
def Term.select : Term → String → Term
  | .name text, n => .name (text ++ "." ++ n)
  | scope, n => .field scope n

inductive Operator where
  | assign
  | binary (op : BinaryOp)

namespace Operator

def lexeme : Operator → Lexeme
  | assign => .assign
  | binary .equals => .equals
  | binary .atMost => .atMost
  | binary .plus => .plus

def ofLexeme? : Lexeme → Option Operator
  | .assign => some assign
  | .equals => some (binary .equals)
  | .atMost => some (binary .atMost)
  | .plus => some (binary .plus)
  | _ => none

/-- Operators of a higher level bind more tightly. -/
def level : Operator → Nat
  | assign => 0
  | binary .equals => 1
  | binary .atMost => 2
  | binary .plus => 3

/-- The least level inside a right operand. -/
def rightLevel : Operator → Nat
  | assign => 0
  | binary op => (binary op).level + 1

def join : Operator → Term → Term → Term
  | assign => .assign
  | binary op => .binary op

@[simp]
theorem ofLexeme?_lexeme (o : Operator) : ofLexeme? o.lexeme = some o := by
  cases o with
  | assign => rfl
  | binary op => cases op <;> rfl

theorem level_lt (o : Operator) : o.level < 4 := by
  cases o with
  | assign => decide
  | binary op => cases op <;> decide

end Operator

/-- A number, perhaps after a minus sign. The least 32-bit and 64-bit numbers need the sign. -/
def literal? (negative : Bool) : Lexeme → Option Term
  | .integer value false =>
    if value < 0x80000000 + negative.toNat
    then some (.int (Int32.ofInt (if negative then -value else value))) else none
  | .integer value true =>
    if value < 0x8000000000000000 + negative.toNat
    then some (.long (Int64.ofInt (if negative then -value else value))) else none
  | .real x => some (.real (if negative then x.neg else x))
  | _ => none

def increments (t : Term) : List Lexeme → Term × List Lexeme
  | .increment :: ls => increments (.increment t) ls
  | ls => (t, ls)

mutual

/-- Operands joined by operators of at least the level `least`. -/
def operation : Nat → Nat → List Lexeme → Option (Term × List Lexeme)
  | 0, _, _ => none
  | n + 1, least, ls => do
    let (t, ls) ← operand n ls
    climb n least t ls

/-- Operators of at least the level `least` and their right operands, after a left operand. -/
def climb : Nat → Nat → Term → List Lexeme → Option (Term × List Lexeme)
  | 0, _, _, _ => none
  | n + 1, least, left, ls =>
    match ls.head?.bind Operator.ofLexeme? with
    | none => some (left, ls)
    | some o =>
      if o.level < least then some (left, ls)
      else do
        let (right, ls) ← operation n o.rightLevel ls.tail
        climb n least (o.join left right) ls

def operand : Nat → List Lexeme → Option (Term × List Lexeme)
  | 0, _ => none
  | _ + 1, .minus :: l :: ls => do
    let t ← literal? true l
    some (t, ls)
  | n + 1, ls => do
    let (t, ls) ← primary n ls
    some (increments t ls)

def primary : Nat → List Lexeme → Option (Term × List Lexeme)
  | 0, _ => none
  | n + 1, .openParen :: ls => do
    let (t, ls) ← operation n 0 ls
    match ls with
    | .closeParen :: ls => selectors n t ls
    | _ => none
  | n + 1, .word w :: .openParen :: ls => do
    let (args, ls) ← arguments n ls
    selectors n (.call none w args) ls
  | n + 1, .word w :: ls => selectors n (.name w) ls
  | n + 1, .this :: ls => selectors n .this ls
  | n + 1, .string s :: ls => selectors n (.string s) ls
  | n + 1, l :: ls => do
    let t ← literal? false l
    selectors n t ls
  | _ + 1, [] => none

/-- Selections and calls, each after a point. -/
def selectors : Nat → Term → List Lexeme → Option (Term × List Lexeme)
  | 0, _, _ => none
  | n + 1, scope, .dot :: .word w :: .openParen :: ls => do
    let (args, ls) ← arguments n ls
    selectors n (.call (some scope) w args) ls
  | n + 1, scope, .dot :: .word w :: ls => selectors n (scope.select w) ls
  | _ + 1, t, ls => some (t, ls)

/-- The arguments of a call after its opening parenthesis, and the closing one. -/
def arguments : Nat → List Lexeme → Option (List Term × List Lexeme)
  | 0, _ => none
  | _ + 1, .closeParen :: ls => some ([], ls)
  | n + 1, ls => items n ls

def items : Nat → List Lexeme → Option (List Term × List Lexeme)
  | 0, _ => none
  | n + 1, ls => do
    let (t, ls) ← operation n 0 ls
    match ls with
    | .comma :: ls =>
      let (ts, ls) ← items n ls
      some (t :: ts, ls)
    | .closeParen :: ls => some ([t], ls)
    | _ => none

end

/-- The expression that a text is as a whole. -/
def Term.read (L : Letters) (text : String) : Option Term :=
  match operation (6 * (lexemes L text).length + 4) 0 (lexemes L text) with
  | some (t, []) => some t
  | _ => none

/-- No operator of at least the level `limit` comes next, nor anything that goes on with an operand. -/
def Stops (limit : Nat) (rest : List Lexeme) : Prop :=
  ∀ l ∈ rest.head?, l ≠ .dot ∧ l ≠ .openParen ∧ l ≠ .increment ∧
    ∀ o ∈ Operator.ofLexeme? l, o.level < limit

theorem Stops.mono {i j : Nat} {rest : List Lexeme} (h : Stops i rest) (hij : i ≤ j) :
    Stops j rest := by
  intro l hl
  obtain ⟨hdot, hopen, hincrement, hlevel⟩ := h l hl
  exact ⟨hdot, hopen, hincrement, fun o ho => (hlevel o ho).trans_le hij⟩

theorem stops_cons {l : Lexeme} {limit : Nat} (hl : l ≠ .dot ∧ l ≠ .openParen ∧ l ≠ .increment)
    (hlevel : ∀ o ∈ Operator.ofLexeme? l, o.level < limit) (rest : List Lexeme) :
    Stops limit (l :: rest) := by
  intro l' hl'
  obtain rfl : l = l' := by simpa using hl'
  exact ⟨hl.1, hl.2.1, hl.2.2, hlevel⟩

theorem stops_operator {o : Operator} {limit : Nat} (h : o.level < limit) (rest : List Lexeme) :
    Stops limit (o.lexeme :: rest) := by
  refine stops_cons ?_ (by simpa using h) rest
  cases o with
  | assign => decide
  | binary op => cases op <;> decide

theorem stops_closeParen (limit : Nat) (rest : List Lexeme) : Stops limit (.closeParen :: rest) :=
  stops_cons (by decide) (by simp [Operator.ofLexeme?]) rest

theorem stops_comma (limit : Nat) (rest : List Lexeme) : Stops limit (.comma :: rest) :=
  stops_cons (by decide) (by simp [Operator.ofLexeme?]) rest

theorem stops_nil (limit : Nat) : Stops limit [] := by
  intro l hl
  cases hl

theorem Stops.marks {limit : Nat} {rest : List Lexeme} (h : Stops limit rest) :
    .dot ∉ rest.head? ∧ .openParen ∉ rest.head? ∧ .increment ∉ rest.head? := by
  refine ⟨fun hl => (h _ hl).1 rfl, fun hl => (h _ hl).2.1 rfl, fun hl => (h _ hl).2.2.1 rfl⟩

theorem climb_stop {limit : Nat} {rest : List Lexeme} (h : Stops limit rest) (n : Nat) (t : Term) :
    climb (n + 1) limit t rest = some (t, rest) := by
  rw [climb]
  cases ho : rest.head?.bind Operator.ofLexeme? with
  | none => rfl
  | some o =>
    obtain ⟨l, hl, ho⟩ := Option.bind_eq_some_iff.mp ho
    have hlevel := (h l hl).2.2.2 o ho
    simp only [hlevel, if_true]

theorem climb_operator {o : Operator} {least n : Nat} {left right : Term} {ls rest : List Lexeme}
    (h : least ≤ o.level) (hright : operation n o.rightLevel ls = some (right, rest)) :
    climb (n + 1) least left (o.lexeme :: ls) = climb n least (o.join left right) rest := by
  rw [climb]
  simp [Nat.not_lt.mpr h, hright]

theorem selectors_stop {rest : List Lexeme} (h : .dot ∉ rest.head?) (n : Nat) (t : Term) :
    selectors (n + 1) t rest = some (t, rest) := by
  have hdot : ∀ ls, rest ≠ .dot :: ls := by
    intro ls heq
    exact h (by simp [heq])
  rw [selectors]
  · exact fun w ls => hdot _
  · exact fun w ls => hdot _

theorem selectors_word {rest : List Lexeme} (h : .openParen ∉ rest.head?) (n : Nat) (t : Term)
    (w : String) : selectors (n + 1) t (.dot :: .word w :: rest) = selectors n (t.select w) rest := by
  rw [selectors]
  intro ls heq
  exact h (by simp [heq])

theorem primary_word {rest : List Lexeme} (h : .openParen ∉ rest.head?) (n : Nat) (w : String) :
    primary (n + 1) (.word w :: rest) = selectors n (.name w) rest := by
  rw [primary]
  intro ls heq
  exact h (by simp [heq])

theorem primary_literal {l : Lexeme} {t : Term} (h : literal? false l = some t) (n : Nat)
    (rest : List Lexeme) : primary (n + 1) (l :: rest) = selectors n t rest := by
  cases l with
  | integer value isLong => simp [primary, h]
  | real x => simp [primary, h]
  | _ => cases h

theorem operand_primary {n : Nat} {ls rest : List Lexeme} {t : Term}
    (h : primary n ls = some (t, rest)) : operand (n + 1) ls = some (increments t rest) := by
  rw [operand, h]
  · rfl
  · intro l ls' heq
    subst heq
    cases n with
    | zero => cases h
    | succ n => cases h

theorem increments_stop {rest : List Lexeme} (h : .increment ∉ rest.head?) (t : Term) :
    increments t rest = (t, rest) := by
  rw [increments]
  intro ls heq
  exact h (by simp [heq])

theorem arguments_items {n : Nat} {ls rest : List Lexeme} {ts : List Term}
    (h : items n ls = some (ts, rest)) : arguments (n + 1) ls = some (ts, rest) := by
  rw [arguments, h]
  intro ls' heq
  subst heq
  match n with
  | 0 | 1 | 2 | 3 => cases h
  | n + 4 => cases h

/-- The lexemes are read as a primary expression, however it goes on by selection. -/
def ReadsPrimary (t : Term) (ls : List Lexeme) : Prop :=
  ∀ (rest : List Lexeme) (result : Term × List Lexeme) (m : Nat), .openParen ∉ rest.head? →
    (∀ n ≥ m, selectors n t rest = some result) →
    ∀ n ≥ m + 6 * ls.length, primary n (ls ++ rest) = some result

/-- The lexemes are read as a left operand of operators up to `level`, however it goes on. -/
def Reads (level limit : Nat) (t : Term) (ls : List Lexeme) : Prop :=
  ∀ (rest : List Lexeme) (result : Term × List Lexeme) (least m : Nat), least ≤ level →
    Stops limit rest → (∀ n ≥ m, climb n least t rest = some result) →
    ∀ n ≥ m + 6 * ls.length + 3, operation n least (ls ++ rest) = some result

/-- The lexemes are read as the arguments of a call. -/
def ReadsArguments (ts : List Term) (ls : List Lexeme) : Prop :=
  ∀ (rest : List Lexeme), ∀ n ≥ 6 * ls.length + 6,
    arguments n (ls ++ .closeParen :: rest) = some (ts, rest)

/-- What stands as a whole in front of something that ends it. -/
theorem Reads.whole {level limit : Nat} {t : Term} {ls : List Lexeme} (h : Reads level limit t ls)
    {least : Nat} (hleast : least ≤ level) (hlimit : least ≤ limit) {rest : List Lexeme}
    (hrest : Stops least rest) :
    ∀ n ≥ 6 * ls.length + 4, operation n least (ls ++ rest) = some (t, rest) := by
  intro n hn
  refine h rest (t, rest) least 1 hleast (hrest.mono hlimit) (fun m hm => ?_) n (by omega)
  obtain ⟨m, rfl⟩ := Nat.exists_eq_add_of_le' hm
  exact climb_stop hrest m t

theorem ReadsPrimary.reads {t : Term} {ls : List Lexeme} (h : ReadsPrimary t ls) (level limit : Nat) :
    Reads level limit t ls := by
  intro rest result least m hleast hrest hclimb n hn
  obtain ⟨hdot, hopen, hincrement⟩ := hrest.marks
  obtain ⟨n, rfl⟩ := Nat.exists_eq_add_of_le' (show 2 ≤ n by omega)
  have hprimary : primary n (ls ++ rest) = some (t, rest) := by
    refine h rest (t, rest) 1 hopen (fun k hk => ?_) n (by omega)
    obtain ⟨k, rfl⟩ := Nat.exists_eq_add_of_le' hk
    exact selectors_stop hdot k t
  rw [operation, operand_primary hprimary, increments_stop hincrement]
  exact hclimb (n + 1) (by omega)

theorem ReadsPrimary.increment {t : Term} {ls : List Lexeme} (h : ReadsPrimary t ls)
    (level limit : Nat) : Reads level limit (.increment t) (ls ++ [.increment]) := by
  intro rest result least m hleast hrest hclimb n hn
  simp only [List.length_append, List.length_singleton] at hn
  obtain ⟨n, rfl⟩ := Nat.exists_eq_add_of_le' (show 2 ≤ n by omega)
  have hprimary : primary n (ls ++ .increment :: rest) = some (t, .increment :: rest) := by
    refine h _ _ 1 (by simp) (fun k hk => ?_) n (by omega)
    obtain ⟨k, rfl⟩ := Nat.exists_eq_add_of_le' hk
    exact selectors_stop (by simp) k t
  rw [List.append_assoc, List.singleton_append, operation, operand_primary hprimary, increments,
    increments_stop hrest.marks.2.2]
  exact hclimb (n + 1) (by omega)

theorem reads_signed {l : Lexeme} {t : Term} (h : literal? true l = some t) (level limit : Nat) :
    Reads level limit t [.minus, l] := by
  intro rest result least m hleast hrest hclimb n hn
  obtain ⟨n, rfl⟩ := Nat.exists_eq_add_of_le' (show 2 ≤ n by omega)
  have hoperand : operand (n + 1) (.minus :: l :: rest) = some (t, rest) := by
    rw [operand, h]
    rfl
  rw [List.cons_append, List.singleton_append, operation, hoperand]
  exact hclimb (n + 1) (by omega)

/-- A lexeme that is a primary expression on its own. -/
theorem readsPrimary_single {l : Lexeme} {t : Term}
    (h : ∀ n rest, .openParen ∉ rest.head? → primary (n + 1) (l :: rest) = selectors n t rest) :
    ReadsPrimary t [l] := by
  intro rest result m hrest hselectors n hn
  simp only [List.length_singleton] at hn
  obtain ⟨n, rfl⟩ := Nat.exists_eq_add_of_le' (show 1 ≤ n by omega)
  rw [List.singleton_append, h n rest hrest]
  exact hselectors n (by omega)

theorem Reads.paren {level limit : Nat} {t : Term} {ls : List Lexeme} (h : Reads level limit t ls) :
    ReadsPrimary t (.openParen :: (ls ++ [.closeParen])) := by
  intro rest result m hrest hselectors n hn
  simp only [List.length_cons, List.length_append, List.length_nil] at hn
  obtain ⟨n, rfl⟩ := Nat.exists_eq_add_of_le' (show 1 ≤ n by omega)
  have hinside := h.whole (Nat.zero_le _) (Nat.zero_le _) (stops_closeParen 0 rest) n (by omega)
  rw [List.cons_append, List.append_assoc, List.singleton_append, primary, hinside]
  exact hselectors n (by omega)

theorem ReadsPrimary.select {t : Term} {ls : List Lexeme} (h : ReadsPrimary t ls) (w : String) :
    ReadsPrimary (t.select w) (ls ++ [.dot, .word w]) := by
  intro rest result m hrest hselectors n hn
  simp only [List.length_append, List.length_cons, List.length_nil] at hn
  rw [List.append_assoc]
  refine h _ _ (m + 1) (by simp) (fun k hk => ?_) n (by omega)
  obtain ⟨k, rfl⟩ := Nat.exists_eq_add_of_le' (show 1 ≤ k by omega)
  rw [List.cons_append, List.singleton_append, selectors_word hrest]
  exact hselectors k (by omega)

theorem ReadsPrimary.call {t : Term} {ls : List Lexeme} (h : ReadsPrimary t ls) (w : String)
    {ts : List Term} {as : List Lexeme} (hargs : ReadsArguments ts as) :
    ReadsPrimary (.call (some t) w ts)
      (ls ++ .dot :: .word w :: .openParen :: (as ++ [.closeParen])) := by
  intro rest result m hrest hselectors n hn
  simp only [List.length_append, List.length_cons, List.length_nil] at hn
  have htail : (.dot :: .word w :: .openParen :: (as ++ [.closeParen])) ++ rest =
      .dot :: .word w :: .openParen :: (as ++ .closeParen :: rest) := by simp
  rw [List.append_assoc, htail]
  refine h _ _ (m + 6 * as.length + 7) (by simp) (fun k hk => ?_) n (by omega)
  obtain ⟨k, rfl⟩ := Nat.exists_eq_add_of_le' (show 1 ≤ k by omega)
  rw [selectors, hargs rest k (by omega)]
  exact hselectors k (by omega)

theorem readsPrimary_call (w : String) {ts : List Term} {as : List Lexeme}
    (hargs : ReadsArguments ts as) :
    ReadsPrimary (.call none w ts) (.word w :: .openParen :: (as ++ [.closeParen])) := by
  intro rest result m hrest hselectors n hn
  simp only [List.length_append, List.length_cons, List.length_nil] at hn
  have htail : (.word w :: .openParen :: (as ++ [.closeParen])) ++ rest =
      .word w :: .openParen :: (as ++ .closeParen :: rest) := by simp
  obtain ⟨n, rfl⟩ := Nat.exists_eq_add_of_le' (show 1 ≤ n by omega)
  rw [htail, primary, hargs rest n (by omega)]
  exact hselectors n (by omega)

theorem Reads.mono {level limit i j : Nat} {t : Term} {ls : List Lexeme} (h : Reads level limit t ls)
    (hi : i ≤ level) (hj : j ≤ limit) : Reads i j t ls := by
  intro rest result least m hleast hrest
  exact h rest result least m (hleast.trans hi) (hrest.mono hj)

/-- Two operands around an operator: the left one may hold operators of the same level, the right
one only those of the operator's `rightLevel`. -/
theorem Reads.join {o : Operator} {left right : Term} {ls ls' : List Lexeme}
    (hleft : Reads o.level (o.level + 1) left ls)
    (hright : Reads o.rightLevel o.rightLevel right ls') :
    Reads o.level o.rightLevel (o.join left right) (ls ++ o.lexeme :: ls') := by
  intro rest result least m hleast hrest hclimb n hn
  simp only [List.length_append, List.length_cons] at hn
  rw [List.append_assoc, List.cons_append]
  refine hleft _ _ least (m + 6 * ls'.length + 5) hleast (stops_operator (by omega) _)
    (fun k hk => ?_) n (by omega)
  obtain ⟨k, rfl⟩ := Nat.exists_eq_add_of_le' (show 1 ≤ k by omega)
  rw [climb_operator hleast (hright.whole le_rfl le_rfl hrest k (by omega))]
  exact hclimb k (by omega)

theorem Reads.item {level limit : Nat} {t : Term} {ls : List Lexeme} (h : Reads level limit t ls)
    (rest : List Lexeme) :
    ∀ n ≥ 6 * ls.length + 5, items n (ls ++ .closeParen :: rest) = some ([t], rest) := by
  intro n hn
  obtain ⟨n, rfl⟩ := Nat.exists_eq_add_of_le' (show 1 ≤ n by omega)
  rw [items, h.whole (Nat.zero_le _) (Nat.zero_le _) (stops_closeParen 0 rest) n (by omega)]
  rfl

theorem Reads.items {level limit : Nat} {t : Term} {ls ls' : List Lexeme}
    (h : Reads level limit t ls) {n : Nat} {ts : List Term} {rest : List Lexeme}
    (hn : 6 * ls.length + 4 ≤ n) (hitems : Target.items n ls' = some (ts, rest)) :
    Target.items (n + 1) (ls ++ .comma :: ls') = some (t :: ts, rest) := by
  have hfirst := h.whole (Nat.zero_le _) (Nat.zero_le _) (stops_comma 0 ls') n hn
  rw [Target.items, hfirst]
  simp [hitems]

/-- Further words of a dotted name. -/
theorem ReadsPrimary.names {word : List Char} {ls : List Lexeme}
    (h : ReadsPrimary (.name (String.ofList word)) ls) (words : List (List Char)) :
    ReadsPrimary (.name (String.ofList (word ++ words.flatMap ('.' :: ·))))
      (ls ++ words.flatMap fun w => [.dot, .word (String.ofList w)]) := by
  induction words generalizing word ls with
  | nil => simpa using h
  | cons w words ih =>
    have hnext := h.select (String.ofList w)
    have htext : (Term.name (String.ofList word)).select (String.ofList w) =
        .name (String.ofList (word ++ '.' :: w)) := by
      simp [Term.select, ← String.toList_inj]
    rw [htext] at hnext
    simpa using ih hnext

end RpgLowering.Target
