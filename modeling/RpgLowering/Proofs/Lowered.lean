import RpgLowering.Proofs.Declarations

/-! The program of a unit: what its main function and its functions are made of, once everything
is declared. -/
namespace RpgLowering.Core
open RpgLowering.Source (CompilationUnit DataDefinition DataId Reference Subroutine SubroutineId)
variable {u : CompilationUnit} {p p' : Program} {s : Scope} {name : String}

theorem Scope.global_eq_ok {r : Reference DataId} {span : Option Span} {id : GlobalId} :
    s.global r span = .ok id ↔ ∃ d, r.referred = some d ∧ s.globals.lookup d = some id := by
  unfold Scope.global
  rw [← Option.bind_eq_some_iff]
  cases r.referred.bind (s.globals.lookup ·) with
  | none => simp
  | some id' => simp

theorem Scope.function_eq_ok {r : Reference SubroutineId} {span : Option Span} {id : FunctionId} :
    s.function r span = .ok id ↔ ∃ x, r.referred = some x ∧ s.functions.lookup x = some id := by
  unfold Scope.function
  rw [← Option.bind_eq_some_iff]
  cases r.referred.bind (s.functions.lookup ·) with
  | none => simp
  | some id' => simp

theorem loopStart_eq_ok {span : Option Span} {init : Source.Expr} {step : Option Source.Expr}
    {down : Bool} {target value : Source.Expr} :
    loopStart span init step down = .ok (target, value) ↔ down = false ∧
      (∀ e ∈ step, ∃ place, e = .int place 1) ∧ ∃ place, init = .assign place target value := by
  cases down with
  | true => simp [loopStart]
  | false =>
    cases step with
    | none => cases init <;> simp [loopStart]
    | some e =>
      cases e with
      | int place v =>
        by_cases hv : v = 1
        · cases init <;> simp [loopStart, hv]
        · simp [loopStart, hv]
      | _ => simp [loopStart]

/-- The scope in which the statements of a unit are lowered. -/
def unitScope (u : CompilationUnit) : Scope := scopeOf u u.declarations u.subroutines

theorem parameterOf_eq_ok {r : Reference DataId} {x : Parameter} :
    parameterOf s p r = .ok x ↔ ∃ id g, s.global r none = .ok id ∧ p.global? id = some g ∧
      { name := g.name, ty := g.ty } = x := by
  simp only [parameterOf, bind_eq_ok]
  constructor
  · rintro ⟨id, hid, h⟩
    cases hg : p.global? id with
    | none => simp [hg] at h
    | some g =>
      simp only [hg, Except.ok.injEq] at h
      exact ⟨id, g, hid, hg, h⟩
  · rintro ⟨id, g, hid, hg, h⟩
    exact ⟨id, hid, by simp only [hg, h]⟩

/-- The references in the entry list of a unit. -/
def entryReferences (u : CompilationUnit) : List (Reference DataId) :=
  (u.entry.map (·.parameters)).getD []

theorem mem_entryReferences {r : Reference DataId} :
    r ∈ entryReferences u ↔ ∃ list ∈ u.entry, r ∈ list.parameters := by
  unfold entryReferences
  cases u.entry with
  | none => simp
  | some list => simp

theorem withMain_eq_bind : withMain s p =
    (entryReferences s.unit).mapM (parameterOf s p) >>= fun parameters =>
      Stmt.ofSources s s.unit.main >>= fun body =>
        .ok { p with main := { p.main with parameters, body } } := by
  unfold withMain entryReferences
  cases s.unit.entry with
  | none => rfl
  | some list => rfl

theorem withMain_eq_ok :
    withMain s p = .ok p' ↔ ∃ parameters body,
      List.Forall₂ (fun r x => parameterOf s p r = .ok x) (entryReferences s.unit) parameters ∧
      Stmt.ofSources s s.unit.main = .ok body ∧
      { p with main := { p.main with parameters, body } } = p' := by
  simp only [withMain_eq_bind, bind_eq_ok, mapM_eq_ok, Except.ok.injEq, exists_and_left]

theorem exists_withMain :
    (∃ p', withMain s p = .ok p') ↔
      (∀ r ∈ entryReferences s.unit, ∃ x, parameterOf s p r = .ok x) ∧
        ∃ body, Stmt.ofSources s s.unit.main = .ok body := by
  simp only [withMain_eq_bind, exists_bind_eq_ok, Except.ok.injEq, exists_eq', and_true,
    exists_and_right, exists_mapM_eq_ok]

/-- The subroutine whose statements a function ends up with, the last one listed for it. -/
def bodySource? (s : Scope) (xs : List Subroutine) (id : FunctionId) : Option Subroutine :=
  xs.reverse.find? fun x => s.functions.lookup x.id == some id

/-- A function before and after the subroutines gave their statements. -/
def Filled (s : Scope) (xs : List Subroutine) (id : FunctionId) (f f' : Function) : Prop :=
  match bodySource? s xs id with
  | none => f' = f
  | some x => ∃ body, Stmt.ofSources s x.stmts = .ok body ∧ f' = { f with body }

theorem withBodies_cons {x : Subroutine} {xs : List Subroutine} :
    withBodies s p (x :: xs) = .ok p' ↔ ∃ id body, s.functions.lookup x.id = some id ∧
      Stmt.ofSources s x.stmts = .ok body ∧ (p.function? id).isSome ∧
      withBodies s (p.modifyFunction id fun f => { f with body }) xs = .ok p' := by
  rw [withBodies]
  cases s.functions.lookup x.id with
  | none => simp
  | some id => cases hf : p.function? id <;> simp [hf, bind_eq_ok]

theorem Filled.cons {x : Subroutine} {xs : List Subroutine} {id id' : FunctionId} {f f' : Function}
    {body : List Stmt} (hx : s.functions.lookup x.id = some id)
    (hbody : Stmt.ofSources s x.stmts = .ok body)
    (h : Filled s xs id' (if id = id' then { f with body } else f) f') :
    Filled s (x :: xs) id' f f' := by
  unfold Filled bodySource? at h ⊢
  rw [List.reverse_cons, List.find?_append]
  cases hlast : xs.reverse.find? (fun x => s.functions.lookup x.id == some id') with
  | some y =>
    simp only [hlast, Option.some_or] at h ⊢
    obtain ⟨body', hbody', rfl⟩ := h
    refine ⟨body', hbody', ?_⟩
    split <;> rfl
  | none =>
    simp only [hlast, Option.none_or] at h ⊢
    subst h
    by_cases he : id = id'
    · simp [hx, he, hbody]
    · simp [hx, he]

theorem function?_modifyFunction (id id' : FunctionId) (f : Function → Function) :
    (p.modifyFunction id f).function? id' =
      (p.function? id').map fun x => if id = id' then f x else x := by
  cases id
  cases id'
  simp only [Program.function?, Program.modifyFunction, List.getElem?_modify, FunctionId.mk.injEq,
    Option.map_eq_map]

/-- Bodies are filled in, and nothing else about the program changes. -/
theorem withBodies_filled {xs : List Subroutine} (h : withBodies s p xs = .ok p') :
    p' = { p with functions := p'.functions } ∧
      ∀ id, Option.Rel (Filled s xs id) (p.function? id) (p'.function? id) := by
  induction xs generalizing p with
  | nil =>
    cases h
    refine ⟨rfl, fun id => ?_⟩
    cases p'.function? id with
    | none => exact .none
    | some f => exact .some rfl
  | cons x xs ih =>
    obtain ⟨id, body, hid, hbody, -, hrest⟩ := withBodies_cons.mp h
    obtain ⟨hp, hfilled⟩ := ih hrest
    refine ⟨hp, fun id' => ?_⟩
    have hrel := hfilled id'
    rw [function?_modifyFunction] at hrel
    refine rel_of_rel_map ?_ hrel
    intro f f' hf
    exact Filled.cons hid hbody hf

theorem length_modifyFunction (id : FunctionId) (f : Function → Function) :
    (p.modifyFunction id f).functions.length = p.functions.length :=
  List.length_modify ..

theorem exists_withBodies {xs : List Subroutine}
    (hf : ∀ id f, s.functions.lookup id = some f → f.index < p.functions.length) :
    (∃ p', withBodies s p xs = .ok p') ↔
      ∀ x ∈ xs, (s.functions.lookup x.id).isSome ∧ ∃ body, Stmt.ofSources s x.stmts = .ok body := by
  induction xs generalizing p with
  | nil => simp [withBodies]
  | cons x xs ih =>
    have hrest : ∀ id body, (∃ p', withBodies s (p.modifyFunction id fun f => { f with body }) xs =
        .ok p') ↔ ∀ x ∈ xs, (s.functions.lookup x.id).isSome ∧
          ∃ body, Stmt.ofSources s x.stmts = .ok body := by
      intro id body
      apply ih
      rw [length_modifyFunction]
      exact hf
    simp only [withBodies_cons, List.forall_mem_cons]
    constructor
    · rintro ⟨p', id, body, hid, hbody, -, hp'⟩
      exact ⟨⟨Option.isSome_iff_exists.mpr ⟨id, hid⟩, body, hbody⟩, (hrest id body).mp ⟨p', hp'⟩⟩
    · rintro ⟨⟨hid, body, hbody⟩, hall⟩
      obtain ⟨id, hid⟩ := Option.isSome_iff_exists.mp hid
      obtain ⟨p', hp'⟩ := (hrest id body).mpr hall
      exact ⟨p', id, body, hid, hbody, Program.isSome_function?.mpr (hf x.id id hid), hp'⟩

/-- The program of a unit before it has statements. -/
def declared (name : String) (u : CompilationUnit) (gs : List Global) : Program :=
  { name, globals := gs, functions := functionsOf u.subroutines }

/-- The main function does not change what has been declared. -/
theorem lookup_lt_of_withMain {gs : List Global}
    (h : withMain (unitScope u) (declared name u gs) = .ok p') (id : SubroutineId) (f : FunctionId)
    (hf : (unitScope u).functions.lookup id = some f) : f.index < p'.functions.length := by
  obtain ⟨parameters, body, -, -, rfl⟩ := withMain_eq_ok.mp h
  exact lookup_functions_lt hf

/-- Declaring the data of a unit leaves the table of its identities, and of the program only the
globals. -/
theorem declareAllData_result {r : Scope × Program}
    (h : declareAllData (scopeOf u [] []) (Program.new name) u.declarations = .ok r) :
    r = (scopeOf u u.declarations [], { name, globals := r.2.globals }) ∧
      Globals u u.declarations r.2.globals := by
  obtain ⟨hs, hg, hp⟩ := declareAllData_globals .nil h
  exact ⟨Prod.ext hs hp, hg⟩

/-- The phases of lowering a unit: data, subroutines, the main function, and bodies. -/
theorem ofSource_eq_ok :
    Program.ofSource name u = .ok p ↔ ∃ gs p',
      declareAllData (scopeOf u [] []) (Program.new name) u.declarations =
        .ok (scopeOf u u.declarations [], { name, globals := gs }) ∧
      ((firsts (·.id) u.subroutines).map (·.name)).Nodup ∧
      withMain (unitScope u) (declared name u gs) = .ok p' ∧
      withBodies (unitScope u) p' u.subroutines = .ok p := by
  have hinit : ({ unit := u } : Scope) = scopeOf u [] [] := rfl
  have hsubroutines : ∀ gs r, declareAllSubroutines (scopeOf u u.declarations [])
      { name, globals := gs } u.subroutines = .ok r ↔
      ((firsts (·.id) u.subroutines).map (·.name)).Nodup ∧
        (unitScope u, declared name u gs) = r := by
    intro gs r
    rw [declareAllSubroutines_eq_ok rfl, nodup_map_firsts]
    rfl
  simp only [Program.ofSource, hinit, bind_eq_ok]
  constructor
  · rintro ⟨r, hdata, ⟨s₂, p₂⟩, hsubs, p', hmain, hbodies⟩
    have hr := (declareAllData_result hdata).1
    rw [hr] at hdata hsubs
    obtain ⟨hnodup, ⟨⟩⟩ := (hsubroutines _ _).mp hsubs
    exact ⟨r.2.globals, p', hdata, hnodup, hmain, hbodies⟩
  · rintro ⟨gs, p', hdata, hnodup, hmain, hbodies⟩
    exact ⟨_, hdata, _, (hsubroutines _ _).mpr ⟨hnodup, rfl⟩, p', hmain, hbodies⟩

/-- How a program consists of the parts of a unit. -/
structure ProgramOf (u : CompilationUnit) (p : Program) : Prop where
  globals : Globals u u.declarations p.globals
  parameters : List.Forall₂ (fun r x => parameterOf (unitScope u) p r = .ok x) (entryReferences u)
    p.main.parameters
  main : Stmt.ofSources (unitScope u) u.main = .ok p.main.body
  functionNames : ((firsts (·.id) u.subroutines).map (·.name)).Nodup
  functions : ∀ i : Nat, Option.Rel
    (fun x f => Filled (unitScope u) u.subroutines ⟨i⟩ { name := x.name } f)
    (firsts (·.id) u.subroutines)[i]? p.functions[i]?

theorem programOf_ofSource (h : Program.ofSource name u = .ok p) : ProgramOf u p := by
  obtain ⟨gs, p', hdata, hnames, hmain, hbodies⟩ := ofSource_eq_ok.mp h
  obtain ⟨parameters, body, hparameters, hbody, rfl⟩ := withMain_eq_ok.mp hmain
  obtain ⟨hp, hfilled⟩ := withBodies_filled hbodies
  have hglobals : p.globals = gs := by
    rw [hp]
    rfl
  have hparameter : parameterOf (unitScope u) p =
      parameterOf (unitScope u) (declared name u gs) := by
    funext r
    simp only [parameterOf, Program.global?, hglobals]
    rfl
  refine ⟨hglobals ▸ (declareAllData_result hdata).2, ?_, ?_, hnames, fun i => ?_⟩
  · rw [hparameter, hp]
    exact hparameters
  · rw [hp]
    exact hbody
  · have hrel := hfilled ⟨i⟩
    simp only [Program.function?, declared, functionsOf, List.getElem?_map] at hrel
    exact rel_of_rel_map (fun x f hf => hf) hrel

theorem name_ofSource (h : Program.ofSource name u = .ok p) : p.name = name := by
  obtain ⟨gs, p', -, -, hmain, hbodies⟩ := ofSource_eq_ok.mp h
  obtain ⟨parameters, body, -, -, rfl⟩ := withMain_eq_ok.mp hmain
  rw [(withBodies_filled hbodies).1]
  rfl

/-- A unit with a repeated identity, an initial value that refers to its own data, a parameter, a
loop, a case and a call. -/
def tally : CompilationUnit :=
  let total : Reference DataId := ⟨"TOTAL", some ⟨7⟩⟩
  let count : Reference DataId := ⟨"COUNT", some ⟨9⟩⟩
  { data := [
      { id := ⟨7⟩, name := "TOTAL", ty := .number 5 0 },
      { id := ⟨9⟩, name := "COUNT", ty := .number 5 0,
        initial := some (.binary none .plus (.data none total) (.data none count)) },
      { id := ⟨7⟩, name := "COUNT", ty := .timestamp }]
    subroutines := [
      { id := ⟨3⟩, name := "STEP", stmts := [
        .select none
          [(.binary none .equality (.data none count) (.int none 2),
            [.clear none (.data none total)])]
          (some [.eval none (.data none total)
            (.binary none .plus (.data none total) (.data none count))]),
        .display none none (some (.data none total))] }]
    main := [
      .set none .off ["LR"],
      .loop none (.assign none (.data none count) (.int none 1)) (.int none 3) none false
        [.execute none ⟨"STEP", some ⟨3⟩⟩]]
    entry := some { parameters := [total], isEntry := true } }

end RpgLowering.Core
