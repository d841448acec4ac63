import RpgLowering.Proofs.Bind
import RpgLowering.Target.OfCore

/-! Programs whose references all find something, and that these are the ones a class can be made
of: a reference out of range is the only thing that stops it. -/
namespace RpgLowering.Core

/-- The globals of an expression are among the first `n`. -/
def Expr.InRange (n : Nat) : Expr → Prop
  | .integer _ | .decimal _ | .string _ => True
  | .parse e | .format e => e.InRange n
  | .global id => id.index < n
  | .concat l r | .sum l r | .equal l r => l.InRange n ∧ r.InRange n

theorem Expr.InRange.mono {n m : Nat} (hle : n ≤ m) {e : Expr} (h : e.InRange n) : e.InRange m := by
  induction e with
  | integer | decimal | string => trivial
  | parse e ih => exact ih h
  | format e ih => exact ih h
  | global id => exact Nat.lt_of_lt_of_le h hle
  | concat l r ihl ihr => exact ⟨ihl h.1, ihr h.2⟩
  | sum l r ihl ihr => exact ⟨ihl h.1, ihr h.2⟩
  | equal l r ihl ihr => exact ⟨ihl h.1, ihr h.2⟩

/-- The references of a statement are among the first `n` globals and the first `m` functions. -/
inductive Stmt.InRange (n m : Nat) : Stmt → Prop where
  | assign {target value} : target.index < n → value.InRange n → InRange n m (.assign target value)
  | reset {target} : target.index < n → InRange n m (.reset target)
  | call {f} : f.index < m → InRange n m (.call f)
  | print {value} : value.InRange n → InRange n m (.print value)
  | switch {cases default?} : (∀ c ∈ cases, c.1.InRange n) →
      (∀ c ∈ cases, ∀ t ∈ c.2, InRange n m t) →
      (∀ body ∈ default?, ∀ t ∈ body, InRange n m t) → InRange n m (.switch cases default?)
  | loop {counter low high body} : counter.index < n → low.InRange n → high.InRange n →
      (∀ t ∈ body, InRange n m t) → InRange n m (.loop counter low high body)

end RpgLowering.Core

namespace RpgLowering.Target
open RpgLowering.Core (GlobalId FunctionId Program)
variable {p : Program}

theorem exists_fieldOf {id : GlobalId} :
    (∃ e, fieldOf p id = .ok e) ↔ id.index < p.globals.length := by
  rw [← Program.isSome_global?, fieldOf]
  cases p.global? id with
  | none => simp
  | some g => simp

theorem exists_exprOfCore (e : Core.Expr) :
    (∃ e', Expr.ofCore p e = .ok e') ↔ e.InRange p.globals.length := by
  induction e with
  | integer | decimal | string => exact ⟨fun _ => trivial, fun _ => ⟨_, rfl⟩⟩
  | global id => exact exists_fieldOf
  | parse e ih | format e ih =>
    simp only [Expr.ofCore, exists_bind_eq_ok, Except.ok.injEq, exists_eq', and_true, ih,
      Core.Expr.InRange]
  | concat l r ihl ihr | sum l r ihl ihr | equal l r ihl ihr =>
    simp only [Expr.ofCore, exists_bind_eq_ok, Except.ok.injEq, exists_eq', and_true,
      exists_and_right, ihl, ihr, Core.Expr.InRange]

/- Of the two look-ups of a reset, the one of the type comes first; both fail together. -/
theorem exists_resetOfCore {id : GlobalId} :
    (∃ s, Stmt.ofCore p (.reset id) = .ok s) ↔ id.index < p.globals.length := by
  have hzero : ∀ t : Core.Ty, ∃ e, Expr.ofCore p t.zero = .ok e := by
    intro t
    cases t <;> exact ⟨_, rfl⟩
  rw [← Program.isSome_global?, Stmt.ofCore, Program.typeOf?]
  cases hg : p.global? id with
  | none => simp
  | some g =>
    obtain ⟨e, he⟩ := hzero g.ty
    simp [fieldOf, hg, exists_bind_eq_ok, he]

theorem exists_callOfCore {id : FunctionId} :
    (∃ s, Stmt.ofCore p (.call id) = .ok s) ↔ id.index < p.functions.length := by
  rw [← Program.isSome_function?, Stmt.ofCore]
  cases p.function? id with
  | none => simp
  | some f => simp

mutual

theorem exists_stmtOfCore (t : Core.Stmt) :
    (∃ s, Stmt.ofCore p t = .ok s) ↔ t.InRange p.globals.length p.functions.length := by
  cases t with
  | assign target value =>
    simp only [Stmt.ofCore, exists_bind_eq_ok, Except.ok.injEq, exists_eq', and_true,
      exists_and_right, exists_fieldOf, exists_exprOfCore]
    constructor
    · rintro ⟨ht, hv⟩
      exact .assign ht hv
    · intro h
      cases h with
      | assign ht hv => exact ⟨ht, hv⟩
  | reset target =>
    rw [exists_resetOfCore]
    constructor
    · exact .reset
    · intro h
      cases h with
      | reset ht => exact ht
  | call f =>
    rw [exists_callOfCore]
    constructor
    · exact .call
    · intro h
      cases h with
      | call hf => exact hf
  | print value =>
    simp only [Stmt.ofCore, exists_bind_eq_ok, Except.ok.injEq, exists_eq', and_true,
      exists_exprOfCore]
    constructor
    · exact .print
    · intro h
      cases h with
      | print hv => exact hv
  | switch cases default? =>
    simp only [Stmt.ofCore, exists_bind_eq_ok, Except.ok.injEq, exists_eq', and_true,
      exists_and_right, exists_casesOfCore cases, exists_defaultOfCore default?]
    constructor
    · rintro ⟨⟨hconditions, hbodies⟩, hdefault⟩
      exact .switch hconditions hbodies hdefault
    · intro h
      cases h with
      | switch hconditions hbodies hdefault => exact ⟨⟨hconditions, hbodies⟩, hdefault⟩
  | loop counter low high body =>
    simp only [Stmt.ofCore, exists_bind_eq_ok, Except.ok.injEq, exists_eq', and_true,
      exists_and_right, exists_fieldOf, exists_exprOfCore, exists_stmtsOfCore body]
    constructor
    · rintro ⟨hc, hl, hh, hb⟩
      exact .loop hc hl hh hb
    · intro h
      cases h with
      | loop hc hl hh hb => exact ⟨hc, hl, hh, hb⟩

theorem exists_stmtsOfCore (ts : List Core.Stmt) :
    (∃ ss, Stmt.ofCores p ts = .ok ss) ↔
      ∀ t ∈ ts, t.InRange p.globals.length p.functions.length := by
  cases ts with
  | nil => simp [Stmt.ofCores]
  | cons t ts =>
    simp only [Stmt.ofCores, exists_bind_eq_ok, Except.ok.injEq, exists_eq', and_true,
      exists_and_right, List.forall_mem_cons, exists_stmtOfCore t, exists_stmtsOfCore ts]

theorem exists_casesOfCore (cases : List (Core.Expr × List Core.Stmt)) :
    (∃ cs, Stmt.ofCases p cases = .ok cs) ↔ (∀ c ∈ cases, c.1.InRange p.globals.length) ∧
      ∀ c ∈ cases, ∀ t ∈ c.2, t.InRange p.globals.length p.functions.length := by
  match cases with
  | [] => simp [Stmt.ofCases]
  | (condition, body) :: cases =>
    simp only [Stmt.ofCases, exists_bind_eq_ok, Except.ok.injEq, exists_eq', and_true,
      exists_and_right, List.forall_mem_cons, exists_exprOfCore, exists_stmtsOfCore body,
      exists_casesOfCore cases]
    tauto

theorem exists_defaultOfCore (default? : Option (List Core.Stmt)) :
    (∃ s, Stmt.ofDefault p default? = .ok s) ↔
      ∀ body ∈ default?, ∀ t ∈ body, t.InRange p.globals.length p.functions.length := by
  cases default? with
  | none => simp [Stmt.ofDefault]
  | some body =>
    simp only [Stmt.ofDefault, exists_bind_eq_ok, Except.ok.injEq, exists_eq', and_true,
      Option.mem_def, Option.some.injEq, forall_eq', exists_stmtsOfCore body]

end

/-- A class is made of a program exactly if no reference in it dangles. -/
theorem exists_sourceFileOfCore :
    (∃ f, SourceFile.ofCore p = .ok f) ↔
      (∀ g ∈ p.globals, ∀ e ∈ g.initial, e.InRange p.globals.length) ∧
      (∀ t ∈ p.main.body, t.InRange p.globals.length p.functions.length) ∧
      ∀ f ∈ p.functions, ∀ t ∈ f.body, t.InRange p.globals.length p.functions.length := by
  simp only [SourceFile.ofCore, Class.ofCore, Field.ofCore, Method.ofMain, Method.ofFunction,
    exists_bind_eq_ok, exists_mapM_eq_ok, exists_optionMapM_eq_ok, Except.ok.injEq, exists_eq',
    and_true, exists_and_right, exists_exprOfCore, exists_stmtsOfCore]

end RpgLowering.Target
