import RpgLowering.Proofs.Lowered

/-! The units that can be lowered, said of the unit alone: which expressions, statements and
declarations it may have, and what they have to refer to. -/
namespace RpgLowering.Source
variable {declared : DataId → Prop} {callable : SubroutineId → Prop}

inductive Ty.Scalar : Ty → Prop where
  | string {length varying} : Scalar (.string length varying)
  | number {entire decimals} : Scalar (.number entire decimals)

/-- The digits and places of `%DEC` are free. -/
inductive Expr.Supported (declared : DataId → Prop) : Expr → Prop where
  | int {span value} : Supported declared (.int span value)
  | real {span value} : Supported declared (.real span value)
  | string {span value} : Supported declared (.string span value)
  | data {span r id} : r.referred = some id → declared id → Supported declared (.data span r)
  | plus {span left right} : Supported declared left → Supported declared right →
      Supported declared (.binary span .plus left right)
  | equality {span left right} : Supported declared left → Supported declared right →
      Supported declared (.binary span .equality left right)
  | char {span operand} : Supported declared operand →
      Supported declared (.unary span .char operand)
  | dec {span value digits places} : Supported declared value →
      Supported declared (.dec span value digits places)

/-- A reference to declared data. -/
inductive Expr.Assignable (declared : DataId → Prop) : Expr → Prop where
  | data {span r id} : r.referred = some id → declared id → Assignable declared (.data span r)

inductive Stmt.Supported (declared : DataId → Prop) (callable : SubroutineId → Prop) :
    Stmt → Prop where
  | plist {span list} : Supported declared callable (.plist span list)
  | set {span value indicators} : Supported declared callable (.set span value indicators)
  | eval {span target value} : target.Assignable declared → value.Supported declared →
      Supported declared callable (.eval span target value)
  | clear {span target} : target.Assignable declared →
      Supported declared callable (.clear span target)
  | execute {span r id} : r.referred = some id → callable id →
      Supported declared callable (.execute span r)
  | display {span factor response} : response.Supported declared →
      Supported declared callable (.display span factor (some response))
  | select {span cases other} : (∀ c ∈ cases, c.1.Supported declared) →
      (∀ c ∈ cases, ∀ t ∈ c.2, Supported declared callable t) →
      (∀ body ∈ other, ∀ t ∈ body, Supported declared callable t) →
      Supported declared callable (.select span cases other)
  | loop {span span' target value limit step body} : target.Assignable declared →
      value.Supported declared → limit.Supported declared →
      (∀ e ∈ step, ∃ place, e = .int place 1) →
      (∀ t ∈ body, Supported declared callable t) →
      Supported declared callable (.loop span (.assign span' target value) limit step false body)

namespace CompilationUnit

def Declares (u : CompilationUnit) (id : DataId) : Prop := id ∈ u.declarations.map (·.id)

def Lists (u : CompilationUnit) (id : SubroutineId) : Prop := id ∈ u.subroutines.map (·.id)

structure Supported (u : CompilationUnit) : Prop where
  types : ∀ d ∈ firsts (·.id) u.declarations, d.ty.Scalar
  names : ((firsts (·.id) u.declarations).map (·.name)).Nodup
  /-- An initial value refers to data declared before its own declaration, or to its own. -/
  initials : ∀ before d after, u.declarations = before ++ d :: after → d.id ∉ before.map (·.id) →
    ∀ e ∈ d.initial, e.Supported (· ∈ (before ++ [d]).map (·.id))
  subroutineNames : ((firsts (·.id) u.subroutines).map (·.name)).Nodup
  entry : ∀ list ∈ u.entry, ∀ r ∈ list.parameters, ∃ id, r.referred = some id ∧ u.Declares id
  main : ∀ t ∈ u.main, t.Supported u.Declares u.Lists
  subroutines : ∀ x ∈ u.subroutines, ∀ t ∈ x.stmts, t.Supported u.Declares u.Lists

end CompilationUnit

end RpgLowering.Source

namespace RpgLowering.Core
open RpgLowering.Source (CompilationUnit DataDefinition DataId Reference Subroutine SubroutineId)
variable {declared : DataId → Prop} {callable : SubroutineId → Prop} {s : Scope}

theorem exists_global (hd : ∀ id, (s.globals.lookup id).isSome ↔ declared id) {r : Reference DataId}
    {span : Option Span} :
    (∃ g, s.global r span = .ok g) ↔ ∃ id, r.referred = some id ∧ declared id := by
  simp only [Scope.global_eq_ok, ← hd, Option.isSome_iff_exists]
  constructor
  · rintro ⟨g, id, hr, hg⟩
    exact ⟨id, hr, g, hg⟩
  · rintro ⟨id, hr, g, hg⟩
    exact ⟨g, id, hr, hg⟩

theorem exists_function (hc : ∀ id, (s.functions.lookup id).isSome ↔ callable id)
    {r : Reference SubroutineId} {span : Option Span} :
    (∃ f, s.function r span = .ok f) ↔ ∃ id, r.referred = some id ∧ callable id := by
  simp only [Scope.function_eq_ok, ← hc, Option.isSome_iff_exists]
  constructor
  · rintro ⟨f, id, hr, hf⟩
    exact ⟨id, hr, f, hf⟩
  · rintro ⟨id, hr, f, hf⟩
    exact ⟨f, id, hr, hf⟩

/- A step that succeeds is followed by steps whose success does not depend on its result, so the
success of a sequence is a conjunction. -/
theorem exists_exprOfSource (hd : ∀ id, (s.globals.lookup id).isSome ↔ declared id)
    (e : Source.Expr) : (∃ e', Expr.ofSource s e = .ok e') ↔ e.Supported declared := by
  induction e with
  | int => exact ⟨fun _ => .int, fun _ => ⟨_, rfl⟩⟩
  | real => exact ⟨fun _ => .real, fun _ => ⟨_, rfl⟩⟩
  | string => exact ⟨fun _ => .string, fun _ => ⟨_, rfl⟩⟩
  | boolean => exact ⟨nofun, nofun⟩
  | assign => exact ⟨nofun, nofun⟩
  | data span r =>
    simp only [Expr.ofSource, exists_bind_eq_ok, Except.ok.injEq, exists_eq', and_true,
      exists_global hd]
    constructor
    · rintro ⟨id, hr, hid⟩
      exact .data hr hid
    · intro h
      cases h with
      | data hr hid => exact ⟨_, hr, hid⟩
  | binary span op left right ihl ihr =>
    cases op with
    | plus =>
      simp only [Expr.ofSource, exists_bind_eq_ok, Except.ok.injEq, exists_eq', and_true,
        exists_and_right, ihl, ihr]
      constructor
      · rintro ⟨hl, hr⟩
        exact .plus hl hr
      · intro h
        cases h with
        | plus hl hr => exact ⟨hl, hr⟩
    | equality =>
      simp only [Expr.ofSource, exists_bind_eq_ok, Except.ok.injEq, exists_eq', and_true,
        exists_and_right, ihl, ihr]
      constructor
      · rintro ⟨hl, hr⟩
        exact .equality hl hr
      · intro h
        cases h with
        | equality hl hr => exact ⟨hl, hr⟩
    | _ => exact ⟨nofun, nofun⟩
  | unary span op e ih =>
    cases op with
    | char =>
      simp only [Expr.ofSource, exists_bind_eq_ok, Except.ok.injEq, exists_eq', and_true, ih]
      constructor
      · exact .char
      · intro h
        cases h with
        | char he => exact he
    | _ => exact ⟨nofun, nofun⟩
  | dec span value digits places ih =>
    simp only [Expr.ofSource, exists_bind_eq_ok, Except.ok.injEq, exists_eq', and_true, ih]
    constructor
    · exact .dec
    · intro h
      cases h with
      | dec hv => exact hv

theorem exists_targetOf (hd : ∀ id, (s.globals.lookup id).isSome ↔ declared id) (e : Source.Expr) :
    (∃ g, targetOf s e = .ok g) ↔ e.Assignable declared := by
  cases e with
  | data span r =>
    simp only [targetOf, exists_global hd]
    constructor
    · rintro ⟨id, hr, hid⟩
      exact .data hr hid
    · intro h
      cases h with
      | data hr hid => exact ⟨_, hr, hid⟩
  | _ => exact ⟨nofun, nofun⟩

mutual

theorem exists_stmtOfSource (hd : ∀ id, (s.globals.lookup id).isSome ↔ declared id)
    (hc : ∀ id, (s.functions.lookup id).isSome ↔ callable id) (t : Source.Stmt) :
    (∃ o, Stmt.ofSource s t = .ok o) ↔ t.Supported declared callable := by
  cases t with
  | plist => exact ⟨fun _ => .plist, fun _ => ⟨_, rfl⟩⟩
  | set => exact ⟨fun _ => .set, fun _ => ⟨_, rfl⟩⟩
  | eval span target value =>
    simp only [Stmt.ofSource, exists_bind_eq_ok, Except.ok.injEq, exists_eq', and_true,
      exists_and_right, exists_targetOf hd, exists_exprOfSource hd]
    constructor
    · rintro ⟨ht, hv⟩
      exact .eval ht hv
    · intro h
      cases h with
      | eval ht hv => exact ⟨ht, hv⟩
  | execute span r =>
    simp only [Stmt.ofSource, exists_bind_eq_ok, Except.ok.injEq, exists_eq', and_true,
      exists_function hc]
    constructor
    · rintro ⟨id, hr, hid⟩
      exact .execute hr hid
    · intro h
      cases h with
      | execute hr hid => exact ⟨_, hr, hid⟩
  | clear span target =>
    simp only [Stmt.ofSource, exists_bind_eq_ok, Except.ok.injEq, exists_eq', and_true,
      exists_targetOf hd]
    constructor
    · exact .clear
    · intro h
      cases h with
      | clear ht => exact ht
  | display span factor response =>
    cases response with
    | none => exact ⟨nofun, nofun⟩
    | some e =>
      simp only [Stmt.ofSource, exists_bind_eq_ok, Except.ok.injEq, exists_eq', and_true,
        exists_exprOfSource hd]
      constructor
      · exact .display
      · intro h
        cases h with
        | display he => exact he
  | select span cases other =>
    simp only [Stmt.ofSource, exists_bind_eq_ok, Except.ok.injEq, exists_eq', and_true,
      exists_and_right, exists_casesOfSource hd hc cases, exists_otherOfSource hd hc other]
    constructor
    · rintro ⟨⟨hconditions, hbodies⟩, hother⟩
      exact .select hconditions hbodies hother
    · intro h
      cases h with
      | select hconditions hbodies hother => exact ⟨⟨hconditions, hbodies⟩, hother⟩
  | loop span init limit step down body =>
    simp only [Stmt.ofSource, exists_bind_eq_ok, Except.ok.injEq, exists_eq', and_true,
      exists_and_right, Prod.exists, loopStart_eq_ok, exists_targetOf hd, exists_exprOfSource hd,
      exists_stmtsOfSource hd hc body]
    constructor
    · rintro ⟨target, value, ⟨rfl, hstep, place, rfl⟩, ht, hv, hl, hb⟩
      exact .loop ht hv hl hstep hb
    · intro h
      cases h with
      | loop ht hv hl hstep hb => exact ⟨_, _, ⟨rfl, hstep, _, rfl⟩, ht, hv, hl, hb⟩
  | _ => exact ⟨nofun, nofun⟩

theorem exists_stmtsOfSource (hd : ∀ id, (s.globals.lookup id).isSome ↔ declared id)
    (hc : ∀ id, (s.functions.lookup id).isSome ↔ callable id) (ts : List Source.Stmt) :
    (∃ b, Stmt.ofSources s ts = .ok b) ↔ ∀ t ∈ ts, t.Supported declared callable := by
  cases ts with
  | nil => simp [Stmt.ofSources]
  | cons t ts =>
    simp only [Stmt.ofSources, exists_bind_eq_ok, Except.ok.injEq, exists_eq', and_true,
      exists_and_right, List.forall_mem_cons, exists_stmtOfSource hd hc t,
      exists_stmtsOfSource hd hc ts]

theorem exists_casesOfSource (hd : ∀ id, (s.globals.lookup id).isSome ↔ declared id)
    (hc : ∀ id, (s.functions.lookup id).isSome ↔ callable id)
    (cases : List (Source.Expr × List Source.Stmt)) :
    (∃ cs, Stmt.ofCases s cases = .ok cs) ↔ (∀ c ∈ cases, c.1.Supported declared) ∧
      ∀ c ∈ cases, ∀ t ∈ c.2, t.Supported declared callable := by
  match cases with
  | [] => simp [Stmt.ofCases]
  | (condition, body) :: cases =>
    simp only [Stmt.ofCases, exists_bind_eq_ok, Except.ok.injEq, exists_eq', and_true,
      exists_and_right, List.forall_mem_cons, exists_exprOfSource hd,
      exists_stmtsOfSource hd hc body, exists_casesOfSource hd hc cases]
    tauto

theorem exists_otherOfSource (hd : ∀ id, (s.globals.lookup id).isSome ↔ declared id)
    (hc : ∀ id, (s.functions.lookup id).isSome ↔ callable id) (other : Option (List Source.Stmt)) :
    (∃ o, Stmt.ofOther s other = .ok o) ↔
      ∀ body ∈ other, ∀ t ∈ body, t.Supported declared callable := by
  cases other with
  | none => simp [Stmt.ofOther]
  | some body =>
    simp only [Stmt.ofOther, exists_bind_eq_ok, Except.ok.injEq, exists_eq', and_true,
      Option.mem_def, Option.some.injEq, forall_eq', exists_stmtsOfSource hd hc body]

end

theorem exists_toCore (t : Source.Ty) : (∃ t', t.toCore = .ok t') ↔ t.Scalar := by
  cases t with
  | string => exact ⟨fun _ => .string, fun _ => ⟨_, rfl⟩⟩
  | number => exact ⟨fun _ => .number, fun _ => ⟨_, rfl⟩⟩
  | _ =>
    simp only [Source.Ty.toCore, exists_bind_eq_ok, reduceCtorEq, exists_false, and_false,
      false_iff]
    exact nofun

theorem exists_globalOf (hd : ∀ id, (s.globals.lookup id).isSome ↔ declared id)
    (d : DataDefinition) :
    (∃ g, GlobalOf s d g) ↔ d.ty.Scalar ∧ ∀ e ∈ d.initial, e.Supported declared := by
  have hinitial : (∃ o, d.initial.mapM (Expr.ofSource s) = .ok o) ↔
      ∀ e ∈ d.initial, e.Supported declared := by
    simp only [exists_optionMapM_eq_ok, exists_exprOfSource hd]
  rw [← exists_toCore, ← hinitial]
  constructor
  · rintro ⟨g, hg⟩
    exact ⟨⟨_, hg.ty⟩, _, hg.initial⟩
  · rintro ⟨⟨t, ht⟩, o, ho⟩
    exact ⟨{ name := d.name, ty := t, initial := o }, rfl, ht, ho⟩

theorem exists_parameterOf {p : Program} {r : Reference DataId}
    (hp : ∀ id g, s.globals.lookup id = some g → g.index < p.globals.length) :
    (∃ x, parameterOf s p r = .ok x) ↔ ∃ g, s.global r none = .ok g := by
  simp only [parameterOf_eq_ok]
  constructor
  · rintro ⟨x, g, _, hg, _⟩
    exact ⟨g, hg⟩
  · rintro ⟨g, hg⟩
    obtain ⟨id, _, hid⟩ := Scope.global_eq_ok.mp hg
    exact ⟨_, g, _, hg, List.getElem?_eq_getElem (hp id g hid), rfl⟩

/-- When the data of a unit can be declared. -/
theorem exists_globals (name : String) (u : CompilationUnit) :
    (∃ gs, declareAllData (scopeOf u [] []) (Program.new name) u.declarations =
      .ok (scopeOf u u.declarations [], { name, globals := gs })) ↔
    (∀ d ∈ firsts (·.id) u.declarations, d.ty.Scalar) ∧
    ((firsts (·.id) u.declarations).map (·.name)).Nodup ∧
    ∀ before d after, u.declarations = before ++ d :: after → d.id ∉ before.map (·.id) →
      ∀ e ∈ d.initial, e.Supported (· ∈ (before ++ [d]).map (·.id)) := by
  have hresult : (∃ gs, declareAllData (scopeOf u [] []) (Program.new name) u.declarations =
      .ok (scopeOf u u.declarations [], { name, globals := gs })) ↔
      ∃ r, declareAllData (scopeOf u [] []) (Program.new name) u.declarations = .ok r := by
    constructor
    · rintro ⟨gs, h⟩
      exact ⟨_, h⟩
    · rintro ⟨r, h⟩
      exact ⟨r.2.globals, (declareAllData_result h).1 ▸ h⟩
  rw [hresult, exists_declareAllData rfl, nodup_map_firsts]
  simp only [Declarable, List.nil_append, exists_globalOf (isSome_lookup_globals _ _)]
  constructor
  · intro h
    refine ⟨fun d hd => ?_, fun before d after hu => (h before d after hu).2,
      fun before d after hu hid => ((h before d after hu).1 hid).2⟩
    obtain ⟨before, after, hu, hid⟩ := mem_firsts.mp hd
    exact ((h before d after hu).1 hid).1
  · rintro ⟨htypes, hnames, hinitials⟩ before d after hu
    refine ⟨fun hid => ⟨htypes d ?_, hinitials before d after hu hid⟩, hnames before d after hu⟩
    exact mem_firsts.mpr ⟨before, after, hu, hid⟩

/-- A unit can be lowered if each phase can go through, none needing what another computes. -/
theorem exists_ofSource (name : String) (u : CompilationUnit) :
    (∃ p, Program.ofSource name u = .ok p) ↔
      (∃ gs, declareAllData (scopeOf u [] []) (Program.new name) u.declarations =
        .ok (scopeOf u u.declarations [], { name, globals := gs })) ∧
      ((firsts (·.id) u.subroutines).map (·.name)).Nodup ∧
      (∀ r ∈ entryReferences u, ∃ g, (unitScope u).global r none = .ok g) ∧
      (∃ body, Stmt.ofSources (unitScope u) u.main = .ok body) ∧
      ∀ x ∈ u.subroutines, ∃ body, Stmt.ofSources (unitScope u) x.stmts = .ok body := by
  have hmain : ∀ gs, declareAllData (scopeOf u [] []) (Program.new name) u.declarations =
      .ok (scopeOf u u.declarations [], { name, globals := gs }) →
      ((∃ p', withMain (unitScope u) (declared name u gs) = .ok p') ↔
        (∀ r ∈ entryReferences u, ∃ g, (unitScope u).global r none = .ok g) ∧
          ∃ body, Stmt.ofSources (unitScope u) u.main = .ok body) := by
    intro gs hdata
    -- the parameters are read off the globals, so this phase needs the first one
    have hgs := (declareAllData_result hdata).2
    have hparameter := fun r => exists_parameterOf (s := unitScope u) (p := declared name u gs)
      (r := r) fun id g hg => hgs.lookup_lt hg
    simp only [exists_withMain, hparameter]
    rfl
  have hbodies : ∀ gs p', withMain (unitScope u) (declared name u gs) = .ok p' →
      ((∃ p, withBodies (unitScope u) p' u.subroutines = .ok p) ↔
        ∀ x ∈ u.subroutines, ∃ body, Stmt.ofSources (unitScope u) x.stmts = .ok body) := by
    intro gs p' hp'
    rw [exists_withBodies (lookup_lt_of_withMain hp')]
    refine forall₂_congr fun x hx => and_iff_right ?_
    exact (isSome_lookup_functions _ _ _).mpr (List.mem_map_of_mem hx)
  simp only [ofSource_eq_ok]
  constructor
  · rintro ⟨p, gs, p', hdata, hnames, hp', hp⟩
    obtain ⟨hentry, hbody⟩ := (hmain gs hdata).mp ⟨p', hp'⟩
    exact ⟨⟨gs, hdata⟩, hnames, hentry, hbody, (hbodies gs p' hp').mp ⟨p, hp⟩⟩
  · rintro ⟨⟨gs, hdata⟩, hnames, hentry, hbody, hrest⟩
    obtain ⟨p', hp'⟩ := (hmain gs hdata).mpr ⟨hentry, hbody⟩
    obtain ⟨p, hp⟩ := (hbodies gs p' hp').mpr hrest
    exact ⟨p, gs, p', hdata, hnames, hp', hp⟩

/-- A unit is lowered to a program exactly if it is supported. -/
theorem lowers_iff_supported (name : String) (u : CompilationUnit) :
    (∃ p, Program.ofSource name u = .ok p) ↔ u.Supported := by
  have hd : ∀ id, ((unitScope u).globals.lookup id).isSome ↔ u.Declares id :=
    isSome_lookup_globals _ _
  have hc : ∀ id, ((unitScope u).functions.lookup id).isSome ↔ u.Lists id :=
    isSome_lookup_functions _ _
  simp only [exists_ofSource, exists_globals, exists_global hd, exists_stmtsOfSource hd hc,
    mem_entryReferences]
  constructor
  · rintro ⟨⟨htypes, hnames, hinitials⟩, hsubroutines, hentry, hmain, hbodies⟩
    exact ⟨htypes, hnames, hinitials, hsubroutines,
      fun list hlist r hr => hentry r ⟨list, hlist, hr⟩, hmain, hbodies⟩
  · intro h
    refine ⟨⟨h.types, h.names, h.initials⟩, h.subroutineNames, ?_, h.main, h.subroutines⟩
    rintro r ⟨list, hlist, hr⟩
    exact h.entry list hlist r hr

end RpgLowering.Core
