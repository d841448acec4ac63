import RpgLowering.Proofs.CoreRun
import RpgLowering.Proofs.WellFormed

/-! The expressions that occur in a program. In the program of a unit every one of them, also inside
another, is the lowering of an expression in the scope of the whole unit. -/
namespace RpgLowering

namespace Core
open RpgLowering.Source (CompilationUnit DataDefinition DataId Reference Subroutine)
variable {u : CompilationUnit} {p : Program} {s : Scope}

/-- The expression and the expressions inside it. -/
def Expr.parts : Expr → List Expr
  | .parse e => .parse e :: e.parts
  | .format e => .format e :: e.parts
  | .concat l r => .concat l r :: (l.parts ++ r.parts)
  | .sum l r => .sum l r :: (l.parts ++ r.parts)
  | .equal l r => .equal l r :: (l.parts ++ r.parts)
  | e => [e]

theorem Expr.self_mem_parts (e : Expr) : e ∈ e.parts := by
  cases e <;> exact List.mem_cons_self

/-- The expressions of the program, in initial values and in statements. -/
def Program.occurrences (p : Program) : List Expr :=
  (p.globals.filterMap (·.initial) ++ p.expressions).flatMap Expr.parts

/-- The expression is lowered from one of the source in the scope. -/
def Expr.FromSource (s : Scope) (e : Expr) : Prop := ∃ x, Expr.ofSource s x = .ok e

theorem fromSource_zero (s : Scope) (t : Ty) : t.zero.FromSource s := by
  cases t with
  | string => exact ⟨.string none "", rfl⟩
  | integer => exact ⟨.int none 0, rfl⟩
  | decimal => exact ⟨.real none .zero, rfl⟩

theorem fromSource_parts {x : Source.Expr} {e : Expr} (h : Expr.ofSource s x = .ok e) :
    ∀ e' ∈ e.parts, e'.FromSource s := by
  have hself : e.FromSource s := ⟨x, h⟩
  induction x generalizing e with
  | int | real | string =>
    cases h
    simpa [Expr.parts] using hself
  | boolean | assign => cases h
  | data span r =>
    simp only [Expr.ofSource, bind_eq_ok] at h
    obtain ⟨g, hg, ⟨⟩⟩ := h
    simpa [Expr.parts] using hself
  | binary span op left right ihl ihr =>
    cases op with
    | plus =>
      simp only [Expr.ofSource, bind_eq_ok] at h
      obtain ⟨l, hl, r, hr, ⟨⟩⟩ := h
      have hparts := List.forall_mem_append.mpr ⟨ihl hl ⟨left, hl⟩, ihr hr ⟨right, hr⟩⟩
      by_cases htext : isText s.unit left = true
      · rw [if_pos htext] at hself ⊢
        exact List.forall_mem_cons.mpr ⟨hself, hparts⟩
      · rw [if_neg htext] at hself ⊢
        exact List.forall_mem_cons.mpr ⟨hself, hparts⟩
    | equality =>
      simp only [Expr.ofSource, bind_eq_ok] at h
      obtain ⟨l, hl, r, hr, ⟨⟩⟩ := h
      have hparts := List.forall_mem_append.mpr ⟨ihl hl ⟨left, hl⟩, ihr hr ⟨right, hr⟩⟩
      exact List.forall_mem_cons.mpr ⟨hself, hparts⟩
    | _ => cases h
  | unary span op x ih =>
    cases op with
    | char =>
      simp only [Expr.ofSource, bind_eq_ok] at h
      obtain ⟨v, hv, ⟨⟩⟩ := h
      exact List.forall_mem_cons.mpr ⟨hself, ih hv ⟨x, hv⟩⟩
    | _ => cases h
  | dec span value digits places ih =>
    simp only [Expr.ofSource, bind_eq_ok] at h
    obtain ⟨v, hv, ⟨⟩⟩ := h
    exact List.forall_mem_cons.mpr ⟨hself, ih hv ⟨value, hv⟩⟩

theorem GlobalOf.fromSource {d : DataDefinition} {g : Global} (h : GlobalOf s d g) :
    ∀ e ∈ g.initial, e.FromSource s := by
  intro e he
  have hinitial := optionMapM_eq_ok.mp h.initial
  rw [Option.mem_def.mp he] at hinitial
  generalize d.initial = o at hinitial
  cases hinitial with
  | @some x _ hx => exact ⟨x, hx⟩

section
variable (p)

mutual

theorem fromSource_stmt (t : Source.Stmt) {o : Option Stmt} (h : Stmt.ofSource s t = .ok o) :
    ∀ t' ∈ o, ∀ e ∈ t'.expressions p, e.FromSource s := by
  cases t with
  | plist | set =>
    cases h
    exact nofun
  | eval span target value =>
    simp only [Stmt.ofSource, bind_eq_ok] at h
    obtain ⟨g, hg, v, hv, ⟨⟩⟩ := h
    simp only [Option.mem_some, forall_eq', Stmt.expressions, List.mem_singleton, forall_eq]
    exact ⟨value, hv⟩
  | execute span r =>
    simp only [Stmt.ofSource, bind_eq_ok] at h
    obtain ⟨f, hf, ⟨⟩⟩ := h
    simp [Stmt.expressions]
  | clear span target =>
    simp only [Stmt.ofSource, bind_eq_ok] at h
    obtain ⟨g, hg, ⟨⟩⟩ := h
    intro t' ht' e he
    cases ht'
    obtain ⟨t, -, rfl⟩ := Option.map_eq_some_iff.mp (Option.mem_toList.mp he)
    exact fromSource_zero s t
  | display span factor response =>
    cases response with
    | none => cases h
    | some x =>
      simp only [Stmt.ofSource, bind_eq_ok] at h
      obtain ⟨v, hv, ⟨⟩⟩ := h
      simp only [Option.mem_some, forall_eq', Stmt.expressions, List.mem_singleton, forall_eq]
      exact ⟨x, hv⟩
  | select span cases other =>
    simp only [Stmt.ofSource, bind_eq_ok] at h
    obtain ⟨cases', hcases, other', hother, ⟨⟩⟩ := h
    simp only [Option.mem_some, forall_eq', Stmt.expressions]
    exact List.forall_mem_append.mpr ⟨fromSource_cases cases hcases, fromSource_other other hother⟩
  | loop span init limit step down body =>
    simp only [Stmt.ofSource, bind_eq_ok] at h
    obtain ⟨⟨target, first⟩, _, g, hg, low, hlow, high, hhigh, body', hbody, ⟨⟩⟩ := h
    simp only [Option.mem_some, forall_eq', Stmt.expressions, List.forall_mem_cons]
    exact ⟨⟨first, hlow⟩, ⟨limit, hhigh⟩, fromSource_stmts body hbody⟩
  | _ => cases h

theorem fromSource_stmts (ts : List Source.Stmt) {ts' : List Stmt}
    (h : Stmt.ofSources s ts = .ok ts') : ∀ e ∈ Stmt.allExpressions p ts', e.FromSource s := by
  cases ts with
  | nil =>
    cases h
    exact nofun
  | cons t ts =>
    simp only [Stmt.ofSources, bind_eq_ok] at h
    obtain ⟨o, ho, rest, hrest, ⟨⟩⟩ := h
    have hfirst := fromSource_stmt t ho
    have htail := fromSource_stmts ts hrest
    cases o with
    | none => exact htail
    | some t' => exact List.forall_mem_append.mpr ⟨hfirst t' rfl, htail⟩

theorem fromSource_cases (cases : List (Source.Expr × List Source.Stmt))
    {cases' : List (Expr × List Stmt)} (h : Stmt.ofCases s cases = .ok cases') :
    ∀ e ∈ Stmt.caseExpressions p cases', e.FromSource s := by
  match cases with
  | [] =>
    cases h
    exact nofun
  | (condition, body) :: cases =>
    simp only [Stmt.ofCases, bind_eq_ok] at h
    obtain ⟨condition', hcondition, body', hbody, rest, hrest, ⟨⟩⟩ := h
    rw [Stmt.caseExpressions, List.forall_mem_cons, List.forall_mem_append]
    exact ⟨⟨condition, hcondition⟩, fromSource_stmts body hbody, fromSource_cases cases hrest⟩

theorem fromSource_other (other : Option (List Source.Stmt)) {other' : Option (List Stmt)}
    (h : Stmt.ofOther s other = .ok other') :
    ∀ e ∈ Stmt.defaultExpressions p other', e.FromSource s := by
  cases other with
  | none =>
    cases h
    exact nofun
  | some body =>
    simp only [Stmt.ofOther, bind_eq_ok] at h
    obtain ⟨body', hbody, ⟨⟩⟩ := h
    exact fromSource_stmts body hbody

end

end

theorem fromSource_function (hp : ProgramOf u p) {f : Function} (hf : f ∈ p.main :: p.functions) :
    ∀ e ∈ Stmt.allExpressions p f.body, e.FromSource (unitScope u) := by
  rcases List.mem_cons.mp hf with rfl | hf
  · exact fromSource_stmts p u.main hp.main
  · obtain ⟨x, -, last, -, -, hfunction⟩ := exists_of_forall₂_right hp.forall₂_functions hf
    exact fromSource_stmts p last.stmts hfunction.body

/-- Whatever occurs in the program of a unit comes from the source. -/
theorem fromSource_of_occurs (hp : ProgramOf u p) {e : Expr} (he : e ∈ p.occurrences) :
    e.FromSource (unitScope u) := by
  obtain ⟨root, hroot, hpart⟩ := List.mem_flatMap.mp he
  have hsource : root.FromSource (unitScope u) := by
    rcases List.mem_append.mp hroot with hinitial | hstmt
    · obtain ⟨g, hg, hroot⟩ := List.mem_filterMap.mp hinitial
      obtain ⟨d, -, hmade⟩ := exists_of_forall₂_right hp.forall₂_globals hg
      exact hmade.fromSource root hroot
    · obtain ⟨f, hf, hroot⟩ := List.mem_flatMap.mp hstmt
      exact fromSource_function hp hf root hroot
  obtain ⟨x, hx⟩ := hsource
  exact fromSource_parts hx e hpart

end Core

end RpgLowering
