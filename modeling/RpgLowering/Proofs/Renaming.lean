import RpgLowering.Proofs.Lowered
import Mathlib.Logic.Equiv.Basic

/-! Identities are only ever compared. When they are exchanged for others, in declarations and
references alike, a unit is lowered to the same program or fails with the same failure. -/
namespace RpgLowering

theorem find?_map_key {α β ι κ : Type} [DecidableEq ι] [DecidableEq κ] {f : ι → κ}
    (hf : Function.Injective f) (key : α → ι) (key' : β → κ) {h : α → β}
    (hkey : ∀ a, key' (h a) = f (key a)) (l : List α) (k : ι) :
    (l.map h).find? (key' · == f k) = (l.find? (key · == k)).map h := by
  have htest : (fun b => key' b == f k) ∘ h = fun a => key a == k := by
    funext a
    rw [Function.comp_apply, hkey, Bool.eq_iff_iff, beq_iff_eq, beq_iff_eq, hf.eq_iff]
  rw [List.find?_map, htest]

theorem lookup_map_key {β ι κ : Type} [DecidableEq ι] [DecidableEq κ] {f : ι → κ}
    (hf : Function.Injective f) (l : List (ι × β)) (k : ι) :
    (l.map (Prod.map f id)).lookup (f k) = l.lookup k := by
  induction l with
  | nil => rfl
  | cons x l ih =>
    have htest : (f k == f x.1) = (k == x.1) := by
      rw [Bool.eq_iff_iff, beq_iff_eq, beq_iff_eq, hf.eq_iff]
    rw [List.map_cons, List.lookup_cons, List.lookup_cons, ih, Prod.map_fst, htest]
    rfl

namespace Source

/-- Other identities for those of a unit, different ones for different ones. -/
structure Renaming where
  data : DataId → DataId
  subroutine : SubroutineId → SubroutineId
  data_injective : Function.Injective data
  subroutine_injective : Function.Injective subroutine

/-- Two identities of data trade places, and two of subroutines. -/
def Renaming.exchange (a b : DataId) (x y : SubroutineId) : Renaming where
  data := Equiv.swap a b
  subroutine := Equiv.swap x y
  data_injective := (Equiv.swap a b).injective
  subroutine_injective := (Equiv.swap x y).injective

/-- A reference keeps its name, and stays unbound if it is. -/
def Reference.rename {ι κ : Type} (f : ι → κ) (r : Reference ι) : Reference κ :=
  { name := r.name, referred := r.referred.map f }

variable (ρ : Renaming)

def Expr.rename : Expr → Expr
  | .int span v => .int span v
  | .real span x => .real span x
  | .string span t => .string span t
  | .boolean span b => .boolean span b
  | .data span r => .data span (r.rename ρ.data)
  | .binary span op left right => .binary span op left.rename right.rename
  | .unary span op e => .unary span op e.rename
  | .assign span target value => .assign span target.rename value.rename
  | .dec span value digits places => .dec span value.rename digits.rename places.rename

def ParameterList.rename (l : ParameterList) : ParameterList :=
  { l with parameters := l.parameters.map (·.rename ρ.data) }

mutual

def Stmt.rename : Stmt → Stmt
  | .plist span l => .plist span (l.rename ρ)
  | .eval span target value => .eval span (target.rename ρ) (value.rename ρ)
  | .execute span r => .execute span (r.rename ρ.subroutine)
  | .clear span target => .clear span (target.rename ρ)
  | .display span factor response =>
    .display span (factor.map (·.rename ρ)) (response.map (·.rename ρ))
  | .set span value indicators => .set span value indicators
  | .select span cases other => .select span (Stmt.renameCases cases) (Stmt.renameOther other)
  | .loop span init limit step down body =>
    .loop span (init.rename ρ) (limit.rename ρ) (step.map (·.rename ρ)) down (Stmt.renameAll body)
  | .branch span condition body otherwise =>
    .branch span (condition.rename ρ) (Stmt.renameAll body) (Stmt.renameOther otherwise)
  | .doWhile span condition body => .doWhile span (condition.rename ρ) (Stmt.renameAll body)
  | .move span target value => .move span (target.rename ρ) (value.rename ρ)
  | .ret span value => .ret span (value.map (·.rename ρ))
  | .leave span => .leave span
  | .iterate span => .iterate span

def Stmt.renameAll : List Stmt → List Stmt
  | [] => []
  | t :: ts => Stmt.rename t :: Stmt.renameAll ts

def Stmt.renameCases : List (Expr × List Stmt) → List (Expr × List Stmt)
  | [] => []
  | (condition, body) :: cases =>
    (condition.rename ρ, Stmt.renameAll body) :: Stmt.renameCases cases

def Stmt.renameOther : Option (List Stmt) → Option (List Stmt)
  | none => none
  | some body => some (Stmt.renameAll body)

end

def DataDefinition.rename (d : DataDefinition) : DataDefinition :=
  { d with id := ρ.data d.id, initial := d.initial.map (·.rename ρ) }

def InStatementDefinition.rename (d : InStatementDefinition) : InStatementDefinition :=
  { d with id := ρ.data d.id }

def Subroutine.rename (x : Subroutine) : Subroutine :=
  { x with id := ρ.subroutine x.id, stmts := Stmt.renameAll ρ x.stmts }

def CompilationUnit.rename (u : CompilationUnit) : CompilationUnit :=
  { data := u.data.map (·.rename ρ)
    inStatement := u.inStatement.map (·.rename ρ)
    subroutines := u.subroutines.map (·.rename ρ)
    main := Stmt.renameAll ρ u.main
    entry := u.entry.map (·.rename ρ) }

theorem CompilationUnit.declarations_rename (u : CompilationUnit) :
    (u.rename ρ).declarations = u.declarations.map (·.rename ρ) := by
  rw [CompilationUnit.declarations, CompilationUnit.declarations, List.map_append]
  simp only [CompilationUnit.rename, List.map_map]
  rfl

theorem CompilationUnit.declaration?_rename (u : CompilationUnit) (id : DataId) :
    (u.rename ρ).declaration? (ρ.data id) = (u.declaration? id).map (·.rename ρ) := by
  rw [CompilationUnit.declaration?, CompilationUnit.declarations_rename]
  exact find?_map_key ρ.data_injective DataDefinition.id DataDefinition.id (fun _ => rfl)
    u.declarations id

theorem CompilationUnit.typeOf_rename (u : CompilationUnit) (r : Reference DataId) :
    (u.rename ρ).typeOf (r.rename ρ.data) = u.typeOf r := by
  unfold CompilationUnit.typeOf Reference.rename
  cases r.referred with
  | none => rfl
  | some id =>
    simp only [Option.map_some, CompilationUnit.declaration?_rename]
    cases u.declaration? id <;> rfl

/- The digits and places count only if they are literals, and these have no identity. -/
theorem decType_rename (digits places : Expr) :
    decType (digits.rename ρ) (places.rename ρ) = decType digits places := by
  cases digits with
  | int => cases places <;> rfl
  | _ => rfl

theorem Expr.staticType_rename (u : CompilationUnit) (e : Expr) :
    (e.rename ρ).staticType (u.rename ρ) = e.staticType u := by
  induction e with
  | int | real | string | boolean | unary | assign => rfl
  | data span r => exact CompilationUnit.typeOf_rename ρ u r
  | binary span op left right ihl ihr =>
    cases op with
    | plus => rw [Expr.rename, Expr.staticType, Expr.staticType, ihl, ihr]
    | minus => exact ihl
    | _ => rfl
  | dec span value digits places => exact decType_rename ρ digits places

end Source

namespace Core
open RpgLowering.Source (CompilationUnit DataDefinition DataId Reference Renaming Subroutine
  SubroutineId)
variable (ρ : Renaming) (s : Scope)

theorem isText_rename (u : CompilationUnit) (e : Source.Expr) :
    isText (u.rename ρ) (e.rename ρ) = isText u e := by
  rw [isText, isText, Source.Expr.staticType_rename]

/-- The same globals and functions for the other identities. -/
def Scope.rename : Scope :=
  { unit := s.unit.rename ρ
    globals := s.globals.map (Prod.map ρ.data id)
    functions := s.functions.map (Prod.map ρ.subroutine id) }

theorem Scope.lookup_globals_rename (id : DataId) :
    (s.rename ρ).globals.lookup (ρ.data id) = s.globals.lookup id :=
  lookup_map_key ρ.data_injective s.globals id

theorem Scope.lookup_functions_rename (id : SubroutineId) :
    (s.rename ρ).functions.lookup (ρ.subroutine id) = s.functions.lookup id :=
  lookup_map_key ρ.subroutine_injective s.functions id

theorem Scope.global_rename (r : Reference DataId) (span : Option Span) :
    (s.rename ρ).global (r.rename ρ.data) span = s.global r span := by
  unfold Scope.global Reference.rename
  cases r.referred with
  | none => rfl
  | some id => simp only [Option.map_some, Option.bind_some, Scope.lookup_globals_rename]

theorem Scope.function_rename (r : Reference SubroutineId) (span : Option Span) :
    (s.rename ρ).function (r.rename ρ.subroutine) span = s.function r span := by
  unfold Scope.function Reference.rename
  cases r.referred with
  | none => rfl
  | some id => simp only [Option.map_some, Option.bind_some, Scope.lookup_functions_rename]

theorem exprOfSource_rename (e : Source.Expr) :
    Expr.ofSource (s.rename ρ) (e.rename ρ) = Expr.ofSource s e := by
  induction e with
  | int | real | string | boolean | assign => rfl
  | data span r => rw [Source.Expr.rename, Expr.ofSource, Scope.global_rename, Expr.ofSource]
  | binary span op left right ihl ihr =>
    cases op with
    | plus =>
      have htext : isText (s.rename ρ).unit (left.rename ρ) = isText s.unit left :=
        isText_rename ρ s.unit left
      rw [Source.Expr.rename, Expr.ofSource, Expr.ofSource, ihl, ihr, htext]
    | equality => rw [Source.Expr.rename, Expr.ofSource, Expr.ofSource, ihl, ihr]
    | _ => rfl
  | unary span op e ih =>
    cases op with
    | char => rw [Source.Expr.rename, Expr.ofSource, Expr.ofSource, ih]
    | _ => rfl
  | dec span value digits places ih => rw [Source.Expr.rename, Expr.ofSource, Expr.ofSource, ih]

theorem targetOf_rename (e : Source.Expr) : targetOf (s.rename ρ) (e.rename ρ) = targetOf s e := by
  cases e with
  | data span r => exact Scope.global_rename ρ s r span
  | _ => rfl

theorem loopStart_rename (span : Option Span) (init : Source.Expr) (step : Option Source.Expr)
    (down : Bool) : loopStart span (init.rename ρ) (step.map (·.rename ρ)) down =
      (loopStart span init step down).map (Prod.map (·.rename ρ) (·.rename ρ)) := by
  have hinit : loopStart span (init.rename ρ) none false =
      (loopStart span init none false).map (Prod.map (·.rename ρ) (·.rename ρ)) := by
    cases init <;> rfl
  cases down with
  | true => rfl
  | false =>
    cases step with
    | none => exact hinit
    | some e =>
      cases e with
      | int place v =>
        by_cases hv : v = 1
        · subst hv
          exact hinit
        · simp [loopStart, Source.Expr.rename, hv, Except.map]
      | _ => rfl

mutual

theorem stmtOfSource_rename (t : Source.Stmt) :
    Stmt.ofSource (s.rename ρ) (t.rename ρ) = Stmt.ofSource s t := by
  cases t with
  | eval span target value =>
    rw [Source.Stmt.rename, Stmt.ofSource, Stmt.ofSource, targetOf_rename, exprOfSource_rename]
  | execute span r =>
    rw [Source.Stmt.rename, Stmt.ofSource, Stmt.ofSource, Scope.function_rename]
  | clear span target =>
    rw [Source.Stmt.rename, Stmt.ofSource, Stmt.ofSource, targetOf_rename]
  | display span factor response =>
    cases response with
    | none => rfl
    | some e =>
      rw [Source.Stmt.rename, Option.map_some, Stmt.ofSource, Stmt.ofSource]
      simp only [exprOfSource_rename]
  | select span cases other =>
    rw [Source.Stmt.rename, Stmt.ofSource, Stmt.ofSource, casesOfSource_rename cases,
      otherOfSource_rename other]
  | loop span init limit step down body =>
    rw [Source.Stmt.rename, Stmt.ofSource, Stmt.ofSource, loopStart_rename]
    cases loopStart span init step down with
    | error f => rfl
    | ok start =>
      simp only [Except.map, bind, Except.bind, Prod.map, targetOf_rename, exprOfSource_rename,
        stmtsOfSource_rename body]
  | _ => rfl

theorem stmtsOfSource_rename (ts : List Source.Stmt) :
    Stmt.ofSources (s.rename ρ) (Source.Stmt.renameAll ρ ts) = Stmt.ofSources s ts := by
  cases ts with
  | nil => rfl
  | cons t ts =>
    rw [Source.Stmt.renameAll, Stmt.ofSources, Stmt.ofSources, stmtOfSource_rename t,
      stmtsOfSource_rename ts]

theorem casesOfSource_rename (cases : List (Source.Expr × List Source.Stmt)) :
    Stmt.ofCases (s.rename ρ) (Source.Stmt.renameCases ρ cases) = Stmt.ofCases s cases := by
  match cases with
  | [] => rfl
  | (condition, body) :: cases =>
    rw [Source.Stmt.renameCases, Stmt.ofCases, Stmt.ofCases, exprOfSource_rename,
      stmtsOfSource_rename body, casesOfSource_rename cases]

theorem otherOfSource_rename (other : Option (List Source.Stmt)) :
    Stmt.ofOther (s.rename ρ) (Source.Stmt.renameOther ρ other) = Stmt.ofOther s other := by
  cases other with
  | none => rfl
  | some body =>
    rw [Source.Stmt.renameOther, Stmt.ofOther, Stmt.ofOther, stmtsOfSource_rename body]

end

variable (p : Program)

/-- What declaring leaves behind, for the other identities. -/
def renameScope (r : Scope × Program) : Scope × Program := (r.1.rename ρ, r.2)

theorem declareGlobalOf_rename (d : DataDefinition) :
    declareGlobalOf (s.rename ρ) p (d.rename ρ) =
      (declareGlobalOf s p d).map fun r => (r.1, renameScope ρ r.2) := by
  unfold declareGlobalOf DataDefinition.rename
  cases located d.span d.ty.toCore with
  | error f => rfl
  | ok t =>
    simp only [bind, Except.bind]
    cases located d.span (p.declareGlobal { name := d.name, ty := t }).1 with
    | error f => rfl
    | ok id => simp [Except.map, renameScope, Scope.rename]

theorem declareData_rename (d : DataDefinition) :
    declareData (s.rename ρ) p (d.rename ρ) = (declareData s p d).map (renameScope ρ) := by
  have hseen : (s.rename ρ).globals.lookup (d.rename ρ).id = s.globals.lookup d.id :=
    Scope.lookup_globals_rename ρ s d.id
  rw [declareData, declareData, hseen]
  by_cases hd : (s.globals.lookup d.id).isSome = true
  · rw [if_pos hd, if_pos hd]
    rfl
  · rw [if_neg hd, if_neg hd, declareGlobalOf_rename]
    cases declareGlobalOf s p d with
    | error f => rfl
    | ok r =>
      have hinitial : (d.rename ρ).initial = d.initial.map (·.rename ρ) := rfl
      rw [hinitial]
      cases d.initial with
      | none => rfl
      | some e =>
        simp only [Except.map, bind, Except.bind, Option.map_some, renameScope, exprOfSource_rename]
        cases Expr.ofSource r.2.1 e with
        | error f => rfl
        | ok v => cases r.2.2.global? r.1 <;> rfl

theorem declareAllData_rename (ds : List DataDefinition) :
    declareAllData (s.rename ρ) p (ds.map (·.rename ρ)) =
      (declareAllData s p ds).map (renameScope ρ) := by
  induction ds generalizing s p with
  | nil => rfl
  | cons d ds ih =>
    rw [List.map_cons, declareAllData, declareAllData, declareData_rename]
    cases declareData s p d with
    | error f => rfl
    | ok r => exact ih r.1 r.2

theorem declareSubroutine_rename (x : Subroutine) :
    declareSubroutine (s.rename ρ) p (x.rename ρ) =
      (declareSubroutine s p x).map (renameScope ρ) := by
  have hseen : (s.rename ρ).functions.lookup (x.rename ρ).id = s.functions.lookup x.id :=
    Scope.lookup_functions_rename ρ s x.id
  rw [declareSubroutine, declareSubroutine, hseen]
  by_cases hx : (s.functions.lookup x.id).isSome = true
  · rw [if_pos hx, if_pos hx]
    rfl
  · rw [if_neg hx, if_neg hx]
    unfold Subroutine.rename
    simp only [bind, Except.bind]
    cases located x.span (p.declareFunction { name := x.name }).1 with
    | error f => rfl
    | ok id => simp [Except.map, renameScope, Scope.rename]

theorem declareAllSubroutines_rename (xs : List Subroutine) :
    declareAllSubroutines (s.rename ρ) p (xs.map (·.rename ρ)) =
      (declareAllSubroutines s p xs).map (renameScope ρ) := by
  induction xs generalizing s p with
  | nil => rfl
  | cons x xs ih =>
    rw [List.map_cons, declareAllSubroutines, declareAllSubroutines, declareSubroutine_rename]
    cases declareSubroutine s p x with
    | error f => rfl
    | ok r => exact ih r.1 r.2

theorem parameterOf_rename (r : Reference DataId) :
    parameterOf (s.rename ρ) p (r.rename ρ.data) = parameterOf s p r := by
  rw [parameterOf, parameterOf, Scope.global_rename]
  rfl

theorem withMain_rename : withMain (s.rename ρ) p = withMain s p := by
  have hmain : (s.rename ρ).unit.main = Source.Stmt.renameAll ρ s.unit.main := rfl
  have hentry : (s.rename ρ).unit.entry = s.unit.entry.map (·.rename ρ) := rfl
  rw [withMain, withMain, hmain, stmtsOfSource_rename, hentry]
  cases s.unit.entry with
  | none => rfl
  | some list =>
    have hparameters : (list.rename ρ).parameters.mapM (parameterOf (s.rename ρ) p) =
        list.parameters.mapM (parameterOf s p) := by
      rw [Source.ParameterList.rename, List.mapM_map]
      simp only [Function.comp_def, parameterOf_rename]
    rw [Option.map_some]
    simp only [hparameters]

theorem withBodies_rename (xs : List Subroutine) :
    withBodies (s.rename ρ) p (xs.map (·.rename ρ)) = withBodies s p xs := by
  induction xs generalizing p with
  | nil => rfl
  | cons x xs ih =>
    have hlookup : (s.rename ρ).functions.lookup (x.rename ρ).id = s.functions.lookup x.id :=
      Scope.lookup_functions_rename ρ s x.id
    have hstmts : (x.rename ρ).stmts = Source.Stmt.renameAll ρ x.stmts := rfl
    rw [List.map_cons, withBodies, withBodies, hlookup, hstmts, stmtsOfSource_rename]
    simp only [ih]
    rfl

/-- Identities are opaque: with others in their place a unit is lowered to the same program, and
where it cannot be lowered it fails with the same failure. -/
theorem ofSource_rename (name : String) (u : CompilationUnit) :
    Program.ofSource name (u.rename ρ) = Program.ofSource name u := by
  have hinit : ({ unit := u.rename ρ } : Scope) = Scope.rename ρ { unit := u } := rfl
  have hsubroutines : (u.rename ρ).subroutines = u.subroutines.map (·.rename ρ) := rfl
  rw [Program.ofSource, Program.ofSource, hinit, CompilationUnit.declarations_rename,
    declareAllData_rename, hsubroutines]
  cases declareAllData { unit := u } (Program.new name) u.declarations with
  | error f => rfl
  | ok r =>
    simp only [Except.map, bind, Except.bind, renameScope, declareAllSubroutines_rename]
    cases declareAllSubroutines r.1 r.2 u.subroutines with
    | error f => rfl
    | ok r =>
      simp only [withMain_rename, withBodies_rename]

/-- Other identities for the tally: its two items of data take each other's, and its subroutine gets a
new one. -/
def tallyExchange : Renaming := .exchange ⟨7⟩ ⟨9⟩ ⟨3⟩ ⟨0⟩

/-- One of the two identities is declared twice. A call of a subroutine that is not there fails as
before. -/
theorem ofSource_tallyExchange :
    (tally.rename tallyExchange).declarations.map (·.id) = [⟨9⟩, ⟨7⟩, ⟨9⟩] ∧
    (tally.rename tallyExchange).subroutines.map (·.id) = [⟨0⟩] ∧
    (∃ p, Program.ofSource "Tally" tally = .ok p ∧
      Program.ofSource "Tally" (tally.rename tallyExchange) = .ok p) ∧
    ∃ f, Program.ofSource "Tally" { main := [.execute none ⟨"STEP", some ⟨3⟩⟩] } = .error f ∧
      Program.ofSource "Tally" { main := [.execute none ⟨"STEP", some ⟨0⟩⟩] } = .error f := by
  refine ⟨by decide, by decide, ⟨_, rfl, ofSource_rename tallyExchange "Tally" tally⟩, _, rfl, ?_⟩
  exact ofSource_rename tallyExchange "Tally" { main := [.execute none ⟨"STEP", some ⟨3⟩⟩] }

end Core

end RpgLowering
