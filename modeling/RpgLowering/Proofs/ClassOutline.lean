import RpgLowering.Proofs.ClassMembers
import RpgLowering.Proofs.FailurePositions
import RpgLowering.Proofs.InRange

/-! The class of a program, whatever the program: when there is one, what is reported if there is
none, and that it has a member for each member and a statement for each statement. -/
namespace RpgLowering.Target
open RpgLowering.Core (GlobalId FunctionId Program)
variable {p : Program}

/-! ### What stops a class from being made -/

/-- Something is referred to that is not there. Programs have no positions to report. -/
def Dangling (f : Failure) : Prop := ∃ name, f = .unresolved name none

theorem fieldOf_failsOnly (id : GlobalId) : FailsOnly Dangling (fieldOf p id) := by
  unfold fieldOf
  cases p.global? id with
  | none => exact .error ⟨_, rfl⟩
  | some g => exact .ok _

theorem exprOfCore_failsOnly (e : Core.Expr) : FailsOnly Dangling (Expr.ofCore p e) := by
  induction e with
  | integer | decimal | string => exact .ok _
  | global id => exact fieldOf_failsOnly id
  | parse e ih | format e ih => exact ih.bind fun _ _ => .ok _
  | concat l r ihl ihr | sum l r ihl ihr | equal l r ihl ihr =>
    exact ihl.bind fun _ _ => ihr.bind fun _ _ => .ok _

mutual

theorem stmtOfCore_failsOnly (t : Core.Stmt) : FailsOnly Dangling (Stmt.ofCore p t) := by
  cases t with
  | assign target value =>
    rw [Stmt.ofCore]
    refine (fieldOf_failsOnly target).bind fun _ _ => ?_
    exact (exprOfCore_failsOnly value).bind fun _ _ => .ok _
  | reset target =>
    rw [Stmt.ofCore]
    cases p.typeOf? target with
    | none => exact .error ⟨_, rfl⟩
    | some ty =>
      refine (fieldOf_failsOnly target).bind fun _ _ => ?_
      exact (exprOfCore_failsOnly ty.zero).bind fun _ _ => .ok _
  | call f =>
    rw [Stmt.ofCore]
    cases p.function? f with
    | none => exact .error ⟨_, rfl⟩
    | some f => exact .ok _
  | print value =>
    rw [Stmt.ofCore]
    exact (exprOfCore_failsOnly value).bind fun _ _ => .ok _
  | switch cases default? =>
    rw [Stmt.ofCore]
    refine (casesOfCore_failsOnly cases).bind fun _ _ => ?_
    exact (defaultOfCore_failsOnly default?).bind fun _ _ => .ok _
  | loop counter low high body =>
    rw [Stmt.ofCore]
    refine (fieldOf_failsOnly counter).bind fun _ _ => ?_
    refine (exprOfCore_failsOnly low).bind fun _ _ => ?_
    refine (exprOfCore_failsOnly high).bind fun _ _ => ?_
    exact (stmtsOfCore_failsOnly body).bind fun _ _ => .ok _

theorem stmtsOfCore_failsOnly (ts : List Core.Stmt) :
    FailsOnly Dangling (Stmt.ofCores p ts) := by
  cases ts with
  | nil => exact .ok _
  | cons t ts =>
    rw [Stmt.ofCores]
    refine (stmtOfCore_failsOnly t).bind fun _ _ => ?_
    exact (stmtsOfCore_failsOnly ts).bind fun _ _ => .ok _

theorem casesOfCore_failsOnly (cases : List (Core.Expr × List Core.Stmt)) :
    FailsOnly Dangling (Stmt.ofCases p cases) := by
  match cases with
  | [] => exact .ok _
  | (condition, body) :: cases =>
    rw [Stmt.ofCases]
    refine (exprOfCore_failsOnly condition).bind fun _ _ => ?_
    refine (stmtsOfCore_failsOnly body).bind fun _ _ => ?_
    exact (casesOfCore_failsOnly cases).bind fun _ _ => .ok _

theorem defaultOfCore_failsOnly (default? : Option (List Core.Stmt)) :
    FailsOnly Dangling (Stmt.ofDefault p default?) := by
  cases default? with
  | none => exact .ok _
  | some body =>
    rw [Stmt.ofDefault]
    exact (stmtsOfCore_failsOnly body).bind fun _ _ => .ok _

end

theorem fieldOfCore_failsOnly (g : Core.Global) : FailsOnly Dangling (Field.ofCore p g) := by
  rw [Field.ofCore]
  exact (FailsOnly.optionMapM fun e _ => exprOfCore_failsOnly e).bind fun _ _ => .ok _

theorem classOfCore_failsOnly : FailsOnly Dangling (Class.ofCore p) := by
  refine (FailsOnly.mapM fun g _ => fieldOfCore_failsOnly g).bind fun _ _ => ?_
  refine ((stmtsOfCore_failsOnly p.main.body).bind fun _ _ => .ok _).bind fun _ _ => ?_
  refine (FailsOnly.mapM fun f _ => ?_).bind fun _ _ => .ok _
  exact (stmtsOfCore_failsOnly f.body).bind fun _ _ => .ok _

/-! ### What it is made of -/

mutual

/-- One statement of a class for one of a program, and so on inside. -/
inductive Mirrors : Core.Stmt → Stmt → Prop where
  | assign {target value field e} : Mirrors (.assign target value) (.expr (.assign field e))
  | reset {target field zero} : Mirrors (.reset target) (.expr (.assign field zero))
  | call {f name} : Mirrors (.call f) (.expr (.call none name []))
  | print {value out e} : Mirrors (.print value) (.expr (.call (some out) "println" [e]))
  | switch {cases default? s} : MirrorsChain cases default? (some s) →
      Mirrors (.switch cases default?) s
  | nothing : Mirrors (.switch [] none) (.block [])
  | loop {counter low high body init test update stmts} : List.Forall₂ Mirrors body stmts →
      Mirrors (.loop counter low high body) (.loop init test update (.block stmts))

/-- An `if` for each case, each inside the one before it, and the default at the end. -/
inductive MirrorsChain :
    List (Core.Expr × List Core.Stmt) → Option (List Core.Stmt) → Option Stmt → Prop where
  | none : MirrorsChain [] none none
  | default {body stmts} : List.Forall₂ Mirrors body stmts →
      MirrorsChain [] (some body) (some (.block stmts))
  | case {condition body cases default? test stmts rest} : List.Forall₂ Mirrors body stmts →
      MirrorsChain cases default? rest →
      MirrorsChain ((condition, body) :: cases) default? (some (.branch test (.block stmts) rest))

end

mutual

theorem mirrors_ofCore (t : Core.Stmt) {s : Stmt} (h : Stmt.ofCore p t = .ok s) : Mirrors t s := by
  cases t with
  | assign target value =>
    simp only [Stmt.ofCore, bind_eq_ok] at h
    obtain ⟨field, -, e, -, ⟨⟩⟩ := h
    exact .assign
  | reset target =>
    rw [Stmt.ofCore] at h
    cases hty : p.typeOf? target with
    | none => simp [hty] at h
    | some ty =>
      simp only [hty, bind_eq_ok] at h
      obtain ⟨field, -, zero, -, ⟨⟩⟩ := h
      exact .reset
  | call f =>
    rw [Stmt.ofCore] at h
    cases hf : p.function? f with
    | none => simp [hf] at h
    | some g =>
      simp only [hf] at h
      cases h
      exact .call
  | print value =>
    simp only [Stmt.ofCore, bind_eq_ok] at h
    obtain ⟨e, -, ⟨⟩⟩ := h
    exact .print
  | switch cases default? =>
    simp only [Stmt.ofCore, bind_eq_ok] at h
    obtain ⟨branches, hbranches, last, hlast, ⟨⟩⟩ := h
    have hchain := mirrorsChain_ofCases cases hbranches (mirrorsChain_ofDefault default? hlast)
    cases hs : chain branches last with
    | some s =>
      rw [hs] at hchain
      exact .switch hchain
    | none =>
      -- a chain is missing only where there is neither a case nor a default
      rw [hs] at hchain
      cases hchain
      exact .nothing
  | loop counter low high body =>
    simp only [Stmt.ofCore, bind_eq_ok] at h
    obtain ⟨field, -, first, -, limit, -, stmts, hstmts, ⟨⟩⟩ := h
    exact .loop (mirrors_ofCores body hstmts)

theorem mirrors_ofCores (ts : List Core.Stmt) {ss : List Stmt} (h : Stmt.ofCores p ts = .ok ss) :
    List.Forall₂ Mirrors ts ss := by
  cases ts with
  | nil =>
    cases h
    exact .nil
  | cons t ts =>
    simp only [Stmt.ofCores, bind_eq_ok] at h
    obtain ⟨s, hs, ss, hss, ⟨⟩⟩ := h
    exact .cons (mirrors_ofCore t hs) (mirrors_ofCores ts hss)

theorem mirrorsChain_ofCases (cases : List (Core.Expr × List Core.Stmt))
    {branches : List (Expr × Stmt)} (h : Stmt.ofCases p cases = .ok branches)
    {default? : Option (List Core.Stmt)} {last : Option Stmt}
    (hlast : MirrorsChain [] default? last) :
    MirrorsChain cases default? (chain branches last) := by
  match cases with
  | [] =>
    cases h
    exact hlast
  | (condition, body) :: cases =>
    simp only [Stmt.ofCases, bind_eq_ok] at h
    obtain ⟨test, -, stmts, hstmts, rest, hrest, ⟨⟩⟩ := h
    exact .case (mirrors_ofCores body hstmts) (mirrorsChain_ofCases cases hrest hlast)

theorem mirrorsChain_ofDefault (default? : Option (List Core.Stmt)) {last : Option Stmt}
    (h : Stmt.ofDefault p default? = .ok last) : MirrorsChain [] default? last := by
  cases default? with
  | none =>
    cases h
    exact .none
  | some body =>
    simp only [Stmt.ofDefault, bind_eq_ok] at h
    obtain ⟨stmts, hstmts, ⟨⟩⟩ := h
    exact .default (mirrors_ofCores body hstmts)

end

/-- A field for each global and a method for each function, in order, behind the entry method. The
entry method copies its parameters and then runs the main function. -/
structure Outlines (p : Program) (c : Class) : Prop where
  name : c.name = p.name
  fields : List.Forall₂ (fun g f => f.name = g.name ∧ f.ty = g.ty.toTarget ∧
    f.initializer.isSome = g.initial.isSome) p.globals c.fields
  methods : ∃ entry others stmts, c.methods = entry :: others ∧ entry.name = entryName ∧
    entry.body = p.main.parameters.map copyIn ++ stmts ∧
    List.Forall₂ Mirrors p.main.body stmts ∧
    List.Forall₂ (fun f m => m.name = f.name ∧ List.Forall₂ Mirrors f.body m.body)
      p.functions others

theorem outlines_ofCore {c : Class} (h : Class.ofCore p = .ok c) : Outlines p c := by
  obtain ⟨fields, body, others, hfields, hbody, hothers, rfl⟩ := Class.ofCore_eq_ok.mp h
  refine ⟨rfl, hfields.imp fun g f hf => ?_, entryOf p body, others, body, rfl, rfl, rfl,
    mirrors_ofCores p.main.body hbody, hothers.imp fun f m hm => ?_⟩
  · obtain ⟨initial, hinitial, rfl⟩ := Field.ofCore_eq_ok.mp hf
    have hrel := optionMapM_eq_ok.mp hinitial
    refine ⟨rfl, rfl, ?_⟩
    generalize g.initial = o at hrel
    cases hrel with
    | none => rfl
    | some _ => rfl
  · obtain ⟨stmts, hstmts, rfl⟩ := Method.ofFunction_eq_ok.mp hm
    exact ⟨rfl, mirrors_ofCores f.body hstmts⟩

/-- A class can be made of a program exactly if every reference in it, at any depth, is in range. If
not, a reference without position is reported; and a class that is made leaves nothing out. -/
theorem class_or_dangling (p : Program) :
    ((∃ file, SourceFile.ofCore p = .ok file) ↔
      (∀ g ∈ p.globals, ∀ e ∈ g.initial, e.InRange p.globals.length) ∧
      (∀ t ∈ p.main.body, t.InRange p.globals.length p.functions.length) ∧
      ∀ f ∈ p.functions, ∀ t ∈ f.body, t.InRange p.globals.length p.functions.length) ∧
    (∀ f, SourceFile.ofCore p = .error f → Dangling f) ∧
    ∀ file, SourceFile.ofCore p = .ok file → ∃ c, file = ⟨[c]⟩ ∧ Outlines p c := by
  refine ⟨exists_sourceFileOfCore, classOfCore_failsOnly.bind fun _ _ => .ok _, ?_⟩
  intro file h
  obtain ⟨c, hc, rfl⟩ := SourceFile.ofCore_eq_ok.mp h
  exact ⟨c, rfl, outlines_ofCore hc⟩

end RpgLowering.Target
