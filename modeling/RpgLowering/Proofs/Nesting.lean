import RpgLowering.Proofs.Decoding
import RpgLowering.Proofs.Rows

/-! Statements as rows: a body and the statements between its braces have the same rows, and apart
from that the rows of a statement determine it and where it ends. -/
namespace RpgLowering.Target

/-! ### Normal forms -/

/-- The statement as a block. -/
def Stmt.wrapped : Stmt → Stmt
  | .block stmts => .block stmts
  | s => .block [s]

mutual

/-- The statement with a block for every branch and every body, only an `if` behind an `else` stays
bare, and with one dotted name for every chain of names. -/
def Stmt.normal : Stmt → Stmt
  | .expr e => .expr e.qualified
  | .block stmts => .block (Stmt.normalAll stmts)
  | .branch condition thenDo elseDo =>
    .branch condition.qualified thenDo.normal.wrapped (Stmt.normalElse elseDo)
  | .loop init test update body =>
    .loop (Expr.qualifiedAll init) (test.map Expr.qualified) (Expr.qualifiedAll update)
      body.normal.wrapped

def Stmt.normalElse : Option Stmt → Option Stmt
  | none => none
  | some s => some (if s.isBranch then s.normal else s.normal.wrapped)

def Stmt.normalAll : List Stmt → List Stmt
  | [] => []
  | s :: ss => s.normal :: Stmt.normalAll ss

end

/-- The statements between the braces of a body. -/
def Stmt.inner : Stmt → List Stmt
  | .block stmts => stmts
  | s => [s]

theorem wrapped_normal (s : Stmt) : s.normal.wrapped = .block (Stmt.normalAll s.inner) := by
  cases s <;> rfl

theorem normal_branch (c : Expr) (t : Stmt) (e : Option Stmt) : (Stmt.branch c t e).normal =
    .branch c.qualified (.block (Stmt.normalAll t.inner)) (Stmt.normalElse e) := by
  rw [Stmt.normal, wrapped_normal]

theorem normalElse_branch (c : Expr) (t : Stmt) (e : Option Stmt) :
    Stmt.normalElse (some (.branch c t e)) =
      some (.branch c.qualified (.block (Stmt.normalAll t.inner)) (Stmt.normalElse e)) := by
  rw [Stmt.normalElse, normal_branch]
  rfl

theorem normalElse_of_not_isBranch {s : Stmt} (h : s.isBranch = false) :
    Stmt.normalElse (some s) = some (.block (Stmt.normalAll s.inner)) := by
  rw [Stmt.normalElse, h, wrapped_normal]
  rfl

/-! ### Rows -/

mutual

/-- What the lines of a statement say. -/
def Stmt.rows (place : Place) : Stmt → List Row
  | .expr e => [.expr e.qualified]
  | .block stmts =>
    match place with
    | .braced => Stmt.rowsOf stmts
    | _ => .opening :: (Stmt.rowsOf stmts ++ [.closing])
  | .branch condition thenDo elseDo =>
    (match place with
      | .chained => .chained condition.qualified
      | _ => .branch condition.qualified) ::
      (thenDo.rows .braced ++ Stmt.elseRows elseDo)
  | .loop init test update body =>
    .loop (Expr.qualifiedAll init) (test.map Expr.qualified) (Expr.qualifiedAll update) ::
      (body.rows .braced ++ [.closing])

def Stmt.elseRows : Option Stmt → List Row
  | none => [.closing]
  | some s =>
    if s.isBranch then s.rows .chained else .otherwise :: (s.rows .braced ++ [.closing])

def Stmt.rowsOf : List Stmt → List Row
  | [] => []
  | s :: ss => s.rows .listed ++ Stmt.rowsOf ss

end

theorem rowsOf_eq_flatMap (ss : List Stmt) :
    Stmt.rowsOf ss = ss.flatMap (Stmt.rows .listed) := by
  induction ss with
  | nil => rfl
  | cons s ss ih => rw [Stmt.rowsOf, ih, List.flatMap_cons]

theorem normalAll_eq_map (ss : List Stmt) : Stmt.normalAll ss = ss.map Stmt.normal := by
  induction ss with
  | nil => rfl
  | cons s ss ih => rw [Stmt.normalAll, ih, List.map_cons]

theorem rows_braced (s : Stmt) : s.rows .braced = Stmt.rowsOf s.inner := by
  cases s <;> simp [Stmt.rows, Stmt.inner, Stmt.rowsOf]

theorem rows_branch (c : Expr) (t : Stmt) (e : Option Stmt) (rest : List Row) :
    (Stmt.branch c t e).rows .listed ++ rest =
      .branch c.qualified :: (Stmt.rowsOf t.inner ++ (Stmt.elseRows e ++ rest)) := by
  simp [Stmt.rows, rows_braced]

theorem rows_loop (init : List Expr) (test : Option Expr) (update : List Expr) (body : Stmt)
    (rest : List Row) : (Stmt.loop init test update body).rows .listed ++ rest =
      .loop (Expr.qualifiedAll init) (test.map Expr.qualified) (Expr.qualifiedAll update) ::
        (Stmt.rowsOf body.inner ++ .closing :: rest) := by
  simp [Stmt.rows, rows_braced]

theorem rows_block (ss : List Stmt) (rest : List Row) : (Stmt.block ss).rows .listed ++ rest =
    .opening :: (Stmt.rowsOf ss ++ .closing :: rest) := by
  simp [Stmt.rows]

theorem elseRows_branch (c : Expr) (t : Stmt) (e : Option Stmt) (rest : List Row) :
    Stmt.elseRows (some (.branch c t e)) ++ rest =
      .chained c.qualified :: (Stmt.rowsOf t.inner ++ (Stmt.elseRows e ++ rest)) := by
  simp [Stmt.elseRows, Stmt.isBranch, Stmt.rows, rows_braced]

theorem elseRows_of_not_isBranch {s : Stmt} (h : s.isBranch = false) (rest : List Row) :
    Stmt.elseRows (some s) ++ rest =
      .otherwise :: (Stmt.rowsOf s.inner ++ .closing :: rest) := by
  simp [Stmt.elseRows, h, rows_braced]

theorem rows_wrapped (s : Stmt) : s.wrapped.rows .braced = s.rows .braced := by
  cases s <;> simp [Stmt.wrapped, Stmt.rows, Stmt.rowsOf]

theorem isBranch_normal (s : Stmt) : s.normal.isBranch = s.isBranch := by
  cases s <;> rfl

theorem isBranch_wrapped (s : Stmt) : s.wrapped.isBranch = false := by
  cases s <;> rfl

mutual

/-- The normal form has the same rows. -/
theorem rows_normal (s : Stmt) (place : Place) : s.normal.rows place = s.rows place := by
  match s with
  | .expr e => rw [Stmt.normal, Stmt.rows, Stmt.rows, qualified_qualified]
  | .block ss => rw [Stmt.normal, Stmt.rows.eq_def, Stmt.rows.eq_def]; simp only [rowsOf_normal ss]
  | .branch c t e =>
    rw [Stmt.normal, Stmt.rows.eq_def, Stmt.rows.eq_def]
    simp only [qualified_qualified, rows_wrapped, rows_normal t, elseRows_normal e]
  | .loop init test update t =>
    have htest : (test.map Expr.qualified).map Expr.qualified = test.map Expr.qualified := by
      cases test with
      | none => rfl
      | some e => exact congrArg some (qualified_qualified e)
    rw [Stmt.normal, Stmt.rows, Stmt.rows, qualifiedAll_qualifiedAll, qualifiedAll_qualifiedAll, htest,
      rows_wrapped, rows_normal t]

theorem elseRows_normal (e : Option Stmt) :
    Stmt.elseRows (Stmt.normalElse e) = Stmt.elseRows e := by
  match e with
  | none => rfl
  | some s =>
    rw [Stmt.normalElse, Stmt.elseRows, Stmt.elseRows]
    cases hs : s.isBranch with
    | true => simp only [if_true, isBranch_normal, hs, rows_normal s]
    | false =>
      simp only [Bool.false_eq_true, if_false, isBranch_wrapped, rows_wrapped, rows_normal s]

theorem rowsOf_normal (ss : List Stmt) : Stmt.rowsOf (Stmt.normalAll ss) = Stmt.rowsOf ss := by
  match ss with
  | [] => rfl
  | s :: ss =>
    rw [Stmt.normalAll, Stmt.rowsOf, Stmt.rowsOf, rows_normal s .listed, rowsOf_normal ss]

end

/-- The row begins a statement of a list. -/
def Row.starts : Row → Bool
  | .expr _ | .opening | .branch _ | .loop .. => true
  | _ => false

theorem started_rows : Started (Stmt.rows .listed) Row.starts := by
  intro s
  cases s <;> exact ⟨_, _, rfl, rfl⟩

theorem closed_elseRows (e : Option Stmt) (rest : List Row) :
    Closed Row.starts (Stmt.elseRows e ++ rest) := by
  cases e with
  | none => exact closed_cons rfl rest
  | some s =>
    cases s with
    | branch c t e =>
      rw [elseRows_branch]
      exact closed_cons rfl _
    | _ =>
      rw [elseRows_of_not_isBranch rfl]
      exact closed_cons rfl _

/-! ### Statements with the same rows -/

abbrev Stmt.Decodes : Stmt → Prop := RpgLowering.Decodes (Stmt.rows .listed) Stmt.normal

abbrev Stmt.AllDecode : List Stmt → Prop :=
  RpgLowering.AllDecode (Stmt.rows .listed) Stmt.normal Row.starts

def Stmt.ElseDecodes (e : Option Stmt) : Prop := ∀ (e' : Option Stmt) (rest rest' : List Row),
  Stmt.elseRows e ++ rest = Stmt.elseRows e' ++ rest' →
    Stmt.normalElse e = Stmt.normalElse e' ∧ rest = rest'

/-- A body ends at its brace. -/
theorem body_inj {ss ts : List Stmt} (h : Stmt.AllDecode ss) {rest rest' : List Row}
    (heq : Stmt.rowsOf ss ++ .closing :: rest = Stmt.rowsOf ts ++ .closing :: rest') :
    Stmt.normalAll ss = Stmt.normalAll ts ∧ rest = rest' := by
  rw [rowsOf_eq_flatMap, rowsOf_eq_flatMap] at heq
  rw [normalAll_eq_map, normalAll_eq_map]
  exact h.closing rfl heq

theorem decodes_expr (e : Expr) : (Stmt.expr e).Decodes := by
  intro t rest rest' h
  cases t with
  | expr e' =>
    obtain ⟨hrow, hend⟩ := List.cons.inj h
    rw [Stmt.normal, Stmt.normal, Row.expr.inj hrow]
    exact ⟨rfl, hend⟩
  | _ => cases (List.cons.inj h).1

theorem decodes_block {ss : List Stmt} (h : Stmt.AllDecode ss) : (Stmt.block ss).Decodes := by
  intro t rest rest' heq
  cases t with
  | block ts =>
    rw [rows_block, rows_block] at heq
    obtain ⟨hstmts, hend⟩ := body_inj h (List.cons.inj heq).2
    rw [Stmt.normal, Stmt.normal, hstmts]
    exact ⟨rfl, hend⟩
  | _ => cases (List.cons.inj heq).1

/-- The body of an `if` and what follows it. -/
theorem branch_tail {s t : Stmt} {e e' : Option Stmt} (hs : Stmt.AllDecode s.inner)
    (he : Stmt.ElseDecodes e) {rest rest' : List Row}
    (h : Stmt.rowsOf s.inner ++ (Stmt.elseRows e ++ rest) =
      Stmt.rowsOf t.inner ++ (Stmt.elseRows e' ++ rest')) :
    Stmt.normalAll s.inner = Stmt.normalAll t.inner ∧ Stmt.normalElse e = Stmt.normalElse e' ∧
      rest = rest' := by
  rw [rowsOf_eq_flatMap, rowsOf_eq_flatMap] at h
  rw [normalAll_eq_map, normalAll_eq_map]
  obtain ⟨hthen, htail⟩ := hs t.inner _ _ (closed_elseRows e rest) (closed_elseRows e' rest') h
  exact ⟨hthen, he e' rest rest' htail⟩

theorem decodes_branch (c : Expr) {s : Stmt} {e : Option Stmt} (hs : Stmt.AllDecode s.inner)
    (he : Stmt.ElseDecodes e) : (Stmt.branch c s e).Decodes := by
  intro t rest rest' h
  cases t with
  | branch c' t e' =>
    rw [rows_branch, rows_branch] at h
    obtain ⟨hrow, htail⟩ := List.cons.inj h
    obtain ⟨hthen, helse, hend⟩ := branch_tail hs he htail
    rw [normal_branch, normal_branch, Row.branch.inj hrow, hthen, helse]
    exact ⟨rfl, hend⟩
  | _ => cases (List.cons.inj h).1

theorem decodes_loop (init : List Expr) (test : Option Expr) (update : List Expr) {s : Stmt}
    (hs : Stmt.AllDecode s.inner) : (Stmt.loop init test update s).Decodes := by
  intro t rest rest' h
  cases t with
  | loop init' test' update' t =>
    rw [rows_loop, rows_loop] at h
    obtain ⟨hrow, htail⟩ := List.cons.inj h
    obtain ⟨hbody, hend⟩ := body_inj hs htail
    obtain ⟨hinit, htest, hupdate⟩ := Row.loop.inj hrow
    rw [Stmt.normal, Stmt.normal, wrapped_normal, wrapped_normal, hinit, htest, hupdate, hbody]
    exact ⟨rfl, hend⟩
  | _ => cases (List.cons.inj h).1

/-- What follows the body of an `if` starts with one of three rows. -/
theorem elseRows_cases (e : Option Stmt) (rest : List Row) :
    (e = none ∧ Stmt.elseRows e ++ rest = .closing :: rest) ∨
    (∃ c t e', e = some (.branch c t e') ∧ Stmt.elseRows e ++ rest =
      .chained c.qualified :: (Stmt.rowsOf t.inner ++ (Stmt.elseRows e' ++ rest))) ∨
    ∃ s : Stmt, e = some s ∧ s.isBranch = false ∧ Stmt.elseRows e ++ rest =
      .otherwise :: (Stmt.rowsOf s.inner ++ .closing :: rest) := by
  cases e with
  | none => exact .inl ⟨rfl, rfl⟩
  | some s =>
    cases s with
    | branch c t e' => exact .inr (.inl ⟨c, t, e', rfl, elseRows_branch c t e' rest⟩)
    | _ => exact .inr (.inr ⟨_, rfl, rfl, elseRows_of_not_isBranch rfl rest⟩)

theorem elseDecodes_none : Stmt.ElseDecodes none := by
  intro e' rest rest' h
  rcases elseRows_cases e' rest' with ⟨rfl, -⟩ | ⟨c, t, e', rfl, hrows⟩ | ⟨t, rfl, -, hrows⟩
  · exact ⟨rfl, (List.cons.inj h).2⟩
  · rw [hrows] at h
    cases (List.cons.inj h).1
  · rw [hrows] at h
    cases (List.cons.inj h).1

theorem elseDecodes_branch (c : Expr) {s : Stmt} {e : Option Stmt} (hs : Stmt.AllDecode s.inner)
    (he : Stmt.ElseDecodes e) : Stmt.ElseDecodes (some (.branch c s e)) := by
  intro e' rest rest' h
  rw [elseRows_branch] at h
  rcases elseRows_cases e' rest' with ⟨-, hrows⟩ | ⟨c', t, e', rfl, hrows⟩ | ⟨t, -, -, hrows⟩
  · rw [hrows] at h
    cases (List.cons.inj h).1
  · rw [hrows] at h
    obtain ⟨hrow, htail⟩ := List.cons.inj h
    obtain ⟨hthen, helse, hend⟩ := branch_tail hs he htail
    rw [normalElse_branch, normalElse_branch, Row.chained.inj hrow, hthen, helse]
    exact ⟨rfl, hend⟩
  · rw [hrows] at h
    cases (List.cons.inj h).1

theorem elseDecodes_of_not_isBranch {s : Stmt} (hs : s.isBranch = false)
    (h : Stmt.AllDecode s.inner) : Stmt.ElseDecodes (some s) := by
  intro e' rest rest' heq
  rw [elseRows_of_not_isBranch hs] at heq
  rcases elseRows_cases e' rest' with ⟨-, hrows⟩ | ⟨c', t, e', -, hrows⟩ | ⟨t, rfl, ht, hrows⟩
  · rw [hrows] at heq
    cases (List.cons.inj heq).1
  · rw [hrows] at heq
    cases (List.cons.inj heq).1
  · rw [hrows] at heq
    obtain ⟨hbody, hend⟩ := body_inj h (List.cons.inj heq).2
    rw [normalElse_of_not_isBranch hs, normalElse_of_not_isBranch ht, hbody]
    exact ⟨rfl, hend⟩

theorem allDecode_singleton {s : Stmt} (h : s.Decodes) : Stmt.AllDecode [s] :=
  started_rows.allDecode_cons h started_rows.allDecode_nil

mutual

theorem decodes (s : Stmt) : s.Decodes ∧ Stmt.AllDecode s.inner := by
  match s with
  | .expr e => exact ⟨decodes_expr e, allDecode_singleton (decodes_expr e)⟩
  | .block ss =>
    have hss := allDecode ss
    exact ⟨decodes_block hss, hss⟩
  | .branch c t e =>
    have hbranch := decodes_branch c (decodes t).2 (elseDecodes e)
    exact ⟨hbranch, allDecode_singleton hbranch⟩
  | .loop init test update t =>
    have hloop := decodes_loop init test update (decodes t).2
    exact ⟨hloop, allDecode_singleton hloop⟩

theorem elseDecodes (e : Option Stmt) : Stmt.ElseDecodes e := by
  match e with
  | none => exact elseDecodes_none
  | some (.branch c t e) => exact elseDecodes_branch c (decodes t).2 (elseDecodes e)
  | some (.expr a) => exact elseDecodes_of_not_isBranch rfl (decodes (.expr a)).2
  | some (.block ss) => exact elseDecodes_of_not_isBranch rfl (decodes (.block ss)).2
  | some (.loop init test update t) =>
    exact elseDecodes_of_not_isBranch rfl (decodes (.loop init test update t)).2

theorem allDecode (ss : List Stmt) : Stmt.AllDecode ss := by
  match ss with
  | [] => exact started_rows.allDecode_nil
  | s :: ss => exact started_rows.allDecode_cons (decodes s).1 (allDecode ss)

end

end RpgLowering.Target
