import RpgLowering.Proofs.Supported

/-! Where failures of lowering come from. A failure has the position of a part of the unit, and that
part is the one its text names; only a reference in the entry list has no position. Types that are
too wide to be shown are left out here: they end the run without a failure to report. -/
namespace RpgLowering

/-! ### Steps that fail in one way only -/

/-- Whatever the step fails with is of one kind. -/
def FailsOnly {α : Type} (P : Failure → Prop) (x : Except Failure α) : Prop :=
  ∀ f, x = .error f → P f

namespace FailsOnly
variable {α β : Type} {P Q : Failure → Prop} {x : Except Failure α}

theorem ok (a : α) : FailsOnly P (.ok a) := nofun

theorem error {f : Failure} (h : P f) : FailsOnly (α := α) P (.error f) := by
  intro g hg
  cases hg
  exact h

theorem mono (h : FailsOnly P x) (hPQ : ∀ f, P f → Q f) : FailsOnly Q x :=
  fun f hf => hPQ f (h f hf)

theorem bind {g : α → Except Failure β} (h : FailsOnly P x)
    (hg : ∀ a, x = .ok a → FailsOnly P (g a)) : FailsOnly P (x >>= g) := by
  intro f hf
  rcases bind_eq_error.mp hf with hx | hx
  · exact h f hx
  · obtain ⟨a, ha, hga⟩ := hx
    exact hg a ha f hga

theorem located {span : Option Span} (h : FailsOnly P x) (hPQ : ∀ f, P f → Q (f.orAt span)) :
    FailsOnly Q (Core.located span x) := by
  cases x with
  | ok a => exact ok a
  | error f => exact error (hPQ f (h f rfl))

theorem mapM {g : α → Except Failure β} {l : List α} (h : ∀ a ∈ l, FailsOnly P (g a)) :
    FailsOnly P (l.mapM g) := by
  induction l with
  | nil => exact ok []
  | cons a l ih =>
    rw [List.mapM_cons]
    apply (h a List.mem_cons_self).bind
    intro b _
    apply (ih fun a' ha' => h a' (List.mem_cons_of_mem a ha')).bind
    intro bs _
    exact ok _

theorem optionMapM {g : α → Except Failure β} {o : Option α} (h : ∀ a ∈ o, FailsOnly P (g a)) :
    FailsOnly P (o.mapM g) := by
  cases o with
  | none => exact ok _
  | some a =>
    rw [Option.mapM_some]
    exact (h a rfl).bind fun _ _ => ok _

end FailsOnly

/-! ### The parts of a unit -/

namespace Source

inductive Node where
  | data (d : DataDefinition)
  | subroutine (x : Subroutine)
  | stmt (t : Stmt)
  | expr (e : Expr)

def Node.span : Node → Option Span
  | .data d => d.span
  | .subroutine x => x.span
  | .stmt t => t.span
  | .expr e => e.span

/-- The expression and the expressions inside it. -/
def Expr.nodes : Expr → List Node
  | .binary span op left right =>
    .expr (.binary span op left right) :: (left.nodes ++ right.nodes)
  | .unary span op e => .expr (.unary span op e) :: e.nodes
  | .assign span target value => .expr (.assign span target value) :: (target.nodes ++ value.nodes)
  | .dec span value digits places =>
    .expr (.dec span value digits places) :: (value.nodes ++ digits.nodes ++ places.nodes)
  | e => [.expr e]

theorem Expr.self_mem_nodes (e : Expr) : .expr e ∈ e.nodes := by
  cases e <;> exact List.mem_cons_self

def Expr.optionNodes (o : Option Expr) : List Node := o.toList.flatMap Expr.nodes

mutual

/-- The statements and expressions inside a statement. -/
def Stmt.inside : Stmt → List Node
  | .plist .. | .execute .. | .set .. | .leave _ | .iterate _ => []
  | .eval _ target value | .move _ target value => target.nodes ++ value.nodes
  | .clear _ target => target.nodes
  | .display _ factor response => Expr.optionNodes factor ++ Expr.optionNodes response
  | .select _ cases other => Stmt.caseNodes cases ++ Stmt.otherNodes other
  | .loop _ init limit step _ body =>
    init.nodes ++ limit.nodes ++ Expr.optionNodes step ++ Stmt.allNodes body
  | .branch _ condition body otherwise =>
    condition.nodes ++ Stmt.allNodes body ++ Stmt.otherNodes otherwise
  | .doWhile _ condition body => condition.nodes ++ Stmt.allNodes body
  | .ret _ value => Expr.optionNodes value

def Stmt.allNodes : List Stmt → List Node
  | [] => []
  | t :: ts => .stmt t :: (Stmt.inside t ++ Stmt.allNodes ts)

def Stmt.caseNodes : List (Expr × List Stmt) → List Node
  | [] => []
  | (condition, body) :: cases =>
    condition.nodes ++ Stmt.allNodes body ++ Stmt.caseNodes cases

def Stmt.otherNodes : Option (List Stmt) → List Node
  | none => []
  | some body => Stmt.allNodes body

end

def Stmt.nodes (t : Stmt) : List Node := .stmt t :: t.inside

def DataDefinition.nodes (d : DataDefinition) : List Node :=
  .data d :: Expr.optionNodes d.initial

def Subroutine.nodes (x : Subroutine) : List Node := .subroutine x :: Stmt.allNodes x.stmts

namespace CompilationUnit

def nodes (u : CompilationUnit) : List Node :=
  u.declarations.flatMap DataDefinition.nodes ++ Stmt.allNodes u.main ++
    u.subroutines.flatMap Subroutine.nodes

/-- Every declaration, subroutine, statement and expression has a position. -/
def Spanned (u : CompilationUnit) : Prop := ∀ n ∈ u.nodes, n.span.isSome

end CompilationUnit

/-- The text of a failure names the part of the unit. -/
inductive Node.Named (u : CompilationUnit) : Node → Failure → Prop where
  | statement {t span} : Named u (.stmt t) (.unsupported ("statement " ++ t.opcode) span)
  | expression {e span} : Named u (.expr e) (.unsupported ("expression " ++ e.kindName) span)
  | target {e span} : Named u (.expr e) (.unsupported ("target " ++ e.kindName) span)
  | type {d text span} : d.ty.text = .ok text →
      Named u (.data d) (.unsupported ("type " ++ text) span)
  | sameData {d d' span} : d' ∈ u.declarations → d'.name = d.name → d'.id ≠ d.id →
      Named u (.data d) (.shape "global variable" ("duplicate name `" ++ d.name ++ "`") span)
  | sameSubroutine {x x' span} : x' ∈ u.subroutines → x'.name = x.name → x'.id ≠ x.id →
      Named u (.subroutine x) (.shape "function" ("duplicate name `" ++ x.name ++ "`") span)
  | loop {t reason span} : t.opcode = "FOR" → Named u (.stmt t) (.shape "FOR" reason span)
  | display {t reason span} : t.opcode = "DSPLY" → Named u (.stmt t) (.shape "DSPLY" reason span)
  | reference {place r span} : Named u (.expr (.data place r)) (.unresolved r.name span)
  | call {place r span} : Named u (.stmt (.execute place r)) (.unresolved r.name span)

/-- One of the parts is named and has the failure's position. -/
def PointsTo (u : CompilationUnit) (ns : List Node) (f : Failure) : Prop :=
  ∃ n ∈ ns, n.span = f.span ∧ n.Named u f

theorem PointsTo.mono {u : CompilationUnit} {ns ms : List Node} {f : Failure}
    (h : PointsTo u ns f) (hsub : ∀ n ∈ ns, n ∈ ms) : PointsTo u ms f := by
  obtain ⟨n, hn, hspan, hnamed⟩ := h
  exact ⟨n, hsub n hn, hspan, hnamed⟩

theorem PointsTo.isReported {u : CompilationUnit} {ns : List Node} {f : Failure}
    (h : PointsTo u ns f) : f.isUnsupported ∨ f.isUnresolved := by
  obtain ⟨n, -, -, hnamed⟩ := h
  cases hnamed with
  | reference | call => exact .inr rfl
  | _ => exact .inl rfl

end Source

theorem FailsOnly.widen {α : Type} {u : Source.CompilationUnit} {ns ms : List Source.Node}
    {x : Except Failure α} (h : FailsOnly (Source.PointsTo u ns) x) (hsub : ∀ n ∈ ns, n ∈ ms) :
    FailsOnly (Source.PointsTo u ms) x :=
  h.mono fun _ hf => hf.mono hsub

/-! ### Failures of expressions and statements -/

namespace Core
open RpgLowering.Source (CompilationUnit DataDefinition DataId Node PointsTo Reference Subroutine
  SubroutineId)
variable (u : CompilationUnit) (s : Scope)

theorem global_failsOnly (r : Reference DataId) (span : Option Span) :
    FailsOnly (· = .unresolved r.name span) (s.global r span) := by
  unfold Scope.global
  split
  · exact .ok _
  · exact .error rfl

theorem function_failsOnly (r : Reference SubroutineId) (span : Option Span) :
    FailsOnly (· = .unresolved r.name span) (s.function r span) := by
  unfold Scope.function
  split
  · exact .ok _
  · exact .error rfl

theorem data_failsOnly (span : Option Span) (r : Reference DataId) :
    FailsOnly (PointsTo u [.expr (.data span r)]) (s.global r span) := by
  refine (global_failsOnly s r span).mono fun f hf => ?_
  subst hf
  exact ⟨_, List.mem_singleton_self _, rfl, .reference⟩

attribute [local simp] Source.Expr.nodes Source.Expr.optionNodes Source.Stmt.nodes
  Source.Stmt.inside Source.Stmt.allNodes Source.Stmt.caseNodes

theorem expr_failsOnly (e : Source.Expr) :
    FailsOnly (PointsTo u e.nodes) (Expr.ofSource s e) := by
  induction e with
  | int | real | string => exact .ok _
  | boolean | assign => exact .error ⟨_, Source.Expr.self_mem_nodes _, rfl, .expression⟩
  | data span r =>
    apply (data_failsOnly u s span r).bind
    intro g _
    exact .ok _
  | binary span op left right ihl ihr =>
    cases op with
    | plus | equality =>
      apply (ihl.widen (by simp +contextual)).bind
      intro l _
      apply (ihr.widen (by simp +contextual)).bind
      intro r _
      exact .ok _
    | _ => exact .error ⟨_, Source.Expr.self_mem_nodes _, rfl, .expression⟩
  | unary span op e ih =>
    cases op with
    | char =>
      apply (ih.widen fun _ => List.mem_cons_of_mem _).bind
      intro v _
      exact .ok _
    | _ => exact .error ⟨_, Source.Expr.self_mem_nodes _, rfl, .expression⟩
  | dec span value digits places ih =>
    apply (ih.widen (by simp +contextual)).bind
    intro v _
    exact .ok _

theorem target_failsOnly (e : Source.Expr) : FailsOnly (PointsTo u e.nodes) (targetOf s e) := by
  cases e with
  | data span r => exact data_failsOnly u s span r
  | _ => exact .error ⟨_, Source.Expr.self_mem_nodes _, rfl, .target⟩

theorem loopStart_failsOnly (span : Option Span) (init : Source.Expr) (step : Option Source.Expr)
    (down : Bool) :
    FailsOnly (fun f => ∃ reason, f = .shape "FOR" reason span)
      (loopStart span init step down) := by
  unfold loopStart
  split
  · exact .error ⟨_, rfl⟩
  · split
    · exact .error ⟨_, rfl⟩
    · split
      · exact .ok _
      · exact .error ⟨_, rfl⟩

mutual

theorem stmt_failsOnly (t : Source.Stmt) : FailsOnly (PointsTo u t.nodes) (Stmt.ofSource s t) := by
  cases t with
  | plist | set => exact .ok _
  | eval span target value =>
    apply ((target_failsOnly u s target).widen (by simp +contextual)).bind
    intro g _
    apply ((expr_failsOnly u s value).widen (by simp +contextual)).bind
    intro v _
    exact .ok _
  | execute span r =>
    have hcall : FailsOnly (PointsTo u (Source.Stmt.execute span r).nodes) (s.function r span) := by
      refine (function_failsOnly s r span).mono fun f hf => ?_
      subst hf
      exact ⟨_, List.mem_cons_self, rfl, .call⟩
    apply hcall.bind
    intro f _
    exact .ok _
  | clear span target =>
    apply ((target_failsOnly u s target).widen fun _ => List.mem_cons_of_mem _).bind
    intro g _
    exact .ok _
  | display span factor response =>
    cases response with
    | none => exact .error ⟨_, List.mem_cons_self, rfl, .display rfl⟩
    | some e =>
      apply ((expr_failsOnly u s e).widen (by simp +contextual)).bind
      intro v _
      exact .ok _
  | select span cases other =>
    apply ((cases_failsOnly cases).widen (by simp +contextual)).bind
    intro cases' _
    apply ((other_failsOnly other).widen (by simp +contextual)).bind
    intro other' _
    exact .ok _
  | loop span init limit step down body =>
    have hstart : FailsOnly (PointsTo u (Source.Stmt.loop span init limit step down body).nodes)
        (loopStart span init step down) := by
      refine (loopStart_failsOnly span init step down).mono fun f hf => ?_
      obtain ⟨reason, rfl⟩ := hf
      exact ⟨_, List.mem_cons_self, rfl, .loop rfl⟩
    apply hstart.bind
    intro start hok
    -- the target and the first value are parts of the initializer
    obtain ⟨-, -, place, rfl⟩ := loopStart_eq_ok.mp hok
    apply ((target_failsOnly u s start.1).widen (by simp +contextual)).bind
    intro g _
    apply ((expr_failsOnly u s start.2).widen (by simp +contextual)).bind
    intro low _
    apply ((expr_failsOnly u s limit).widen (by simp +contextual)).bind
    intro high _
    apply ((stmts_failsOnly body).widen (by simp +contextual)).bind
    intro body' _
    exact .ok _
  | _ => exact .error ⟨_, List.mem_cons_self, rfl, .statement⟩

theorem stmts_failsOnly (ts : List Source.Stmt) :
    FailsOnly (PointsTo u (Source.Stmt.allNodes ts)) (Stmt.ofSources s ts) := by
  cases ts with
  | nil => exact .ok _
  | cons t ts =>
    apply ((stmt_failsOnly t).widen (by simp +contextual)).bind
    intro o _
    apply ((stmts_failsOnly ts).widen (by simp +contextual)).bind
    intro rest _
    exact .ok _

theorem cases_failsOnly (cases : List (Source.Expr × List Source.Stmt)) :
    FailsOnly (PointsTo u (Source.Stmt.caseNodes cases)) (Stmt.ofCases s cases) := by
  match cases with
  | [] => exact .ok _
  | (condition, body) :: cases =>
    apply ((expr_failsOnly u s condition).widen (by simp +contextual)).bind
    intro condition' _
    apply ((stmts_failsOnly body).widen (by simp +contextual)).bind
    intro body' _
    apply ((cases_failsOnly cases).widen (by simp +contextual)).bind
    intro cases' _
    exact .ok _

theorem other_failsOnly (other : Option (List Source.Stmt)) :
    FailsOnly (PointsTo u (Source.Stmt.otherNodes other)) (Stmt.ofOther s other) := by
  cases other with
  | none => exact .ok _
  | some body =>
    apply (stmts_failsOnly body).bind
    intro body' _
    exact .ok _

end

/-! ### Failures of declarations -/

/-- Points to one of the parts, or ends the run at a type that is too wide to be shown. -/
def PointsOrAborts (u : CompilationUnit) (ns : List Node) (f : Failure) : Prop :=
  PointsTo u ns f ∨ f = .aborted .digitCount

theorem text_failsOnly (t : Source.Ty) : FailsOnly (· = .aborted .digitCount) t.text := by
  induction t with
  | number entire decimals =>
    dsimp only [Source.Ty.text]
    split
    · exact .ok _
    · exact .error rfl
  | array element count ih =>
    apply ih.bind
    intro text _
    exact .ok _
  | _ => exact .ok _

/-- The failure of a type names the type, unless the type is too wide to be shown. -/
theorem toCore_failsOnly (t : Source.Ty) :
    FailsOnly (fun f => (∃ text, t.text = .ok text ∧ f = .unsupported ("type " ++ text) none) ∨
      f = .aborted .digitCount) t.toCore := by
  cases t with
  | string | number => exact .ok _
  | _ =>
    refine ((text_failsOnly _).mono fun f => Or.inr).bind ?_
    intro text htext
    exact .error (.inl ⟨text, htext, rfl⟩)

theorem declareGlobal_failsOnly (p : Program) (g : Global) :
    FailsOnly (fun f => g.name ∈ p.globals.map (·.name) ∧
      f = .shape "global variable" ("duplicate name `" ++ g.name ++ "`") none)
      (p.declareGlobal g).1 := by
  by_cases hname : g.name ∈ p.globals.map (·.name)
  · rw [Program.declareGlobal_of_taken hname]
    exact .error ⟨hname, rfl⟩
  · rw [Program.declareGlobal_of_free hname]
    exact .ok _

theorem declareFunction_failsOnly (p : Program) (g : Function) :
    FailsOnly (fun f => g.name ∈ p.functions.map (·.name) ∧
      f = .shape "function" ("duplicate name `" ++ g.name ++ "`") none)
      (p.declareFunction g).1 := by
  by_cases hname : g.name ∈ p.functions.map (·.name)
  · rw [Program.declareFunction_of_taken hname]
    exact .error ⟨hname, rfl⟩
  · rw [Program.declareFunction_of_free hname]
    exact .ok _

variable {u} {p : Program}

/-- A name that has been taken was taken by another identity. -/
theorem exists_of_taken {α ι γ : Type} [DecidableEq ι] {key : α → ι} {f : α → γ} {before : List α}
    {a : α} (hnew : key a ∉ before.map key) (htaken : f a ∈ (firsts key before).map f) :
    ∃ b ∈ before, f b = f a ∧ key b ≠ key a := by
  obtain ⟨b, hb, hfb⟩ := List.mem_map.mp htaken
  obtain ⟨front, back, rfl, -⟩ := mem_firsts.mp hb
  refine ⟨b, by simp, hfb, fun hkey => hnew ?_⟩
  rw [← hkey]
  exact List.mem_map_of_mem (by simp)

theorem declareGlobalOf_failsOnly {before : List DataDefinition} {d : DataDefinition}
    (hg : Globals u before p.globals) (hbefore : ∀ e ∈ before, e ∈ u.declarations)
    (hnew : d.id ∉ before.map (·.id)) (s : Scope) :
    FailsOnly (PointsOrAborts u d.nodes) (declareGlobalOf s p d) := by
  have htype : FailsOnly (PointsOrAborts u d.nodes) (located d.span d.ty.toCore) := by
    refine (toCore_failsOnly d.ty).located ?_
    intro f hf
    rcases hf with htext | habort
    · obtain ⟨text, htext, rfl⟩ := htext
      exact .inl ⟨.data d, List.mem_cons_self, rfl, .type htext⟩
    · subst habort
      exact .inr rfl
  apply htype.bind
  intro ty _
  have hname : FailsOnly (PointsOrAborts u d.nodes)
      (located d.span (p.declareGlobal { name := d.name, ty }).1) := by
    refine (declareGlobal_failsOnly p { name := d.name, ty }).located ?_
    intro f hf
    obtain ⟨htaken, rfl⟩ := hf
    rw [hg.names] at htaken
    obtain ⟨e, he, hsame, hid⟩ := exists_of_taken hnew htaken
    exact .inl ⟨.data d, List.mem_cons_self, rfl, .sameData (hbefore e he) hsame hid⟩
  apply hname.bind
  intro r _
  exact .ok _

/-- The global that has just been declared is there. -/
theorem isSome_declareGlobalOf {s : Scope} {d : DataDefinition} {r : GlobalId × Scope × Program}
    (h : declareGlobalOf s p d = .ok r) : (r.2.2.global? r.1).isSome := by
  obtain ⟨t, -, -, rfl⟩ := declareGlobalOf_eq_ok.mp h
  rw [Program.global?_concat]
  rfl

theorem declareData_failsOnly {before : List DataDefinition} {d : DataDefinition}
    (hg : Globals u before p.globals) (hbefore : ∀ e ∈ before, e ∈ u.declarations) :
    FailsOnly (PointsOrAborts u d.nodes) (declareData (scopeOf u before []) p d) := by
  unfold declareData
  by_cases hseen : ((scopeOf u before []).globals.lookup d.id).isSome
  · rw [if_pos hseen]
    exact .ok _
  · rw [if_neg hseen]
    rw [isSome_lookup_globals] at hseen
    apply (declareGlobalOf_failsOnly hg hbefore hseen _).bind
    intro r hr
    cases hinitial : d.initial with
    | none => exact .ok _
    | some e =>
      have hparts : ∀ n ∈ e.nodes, n ∈ d.nodes := by
        simp +contextual [DataDefinition.nodes, Source.Expr.optionNodes, hinitial]
      refine (((expr_failsOnly u r.2.1 e).widen hparts).mono fun f => Or.inl).bind ?_
      intro value _
      obtain ⟨g, hglobal⟩ := Option.isSome_iff_exists.mp (isSome_declareGlobalOf hr)
      simp only [hglobal]
      exact .ok _

theorem declareAllData_failsOnly {before ds : List DataDefinition}
    (hg : Globals u before p.globals) (hu : u.declarations = before ++ ds) :
    FailsOnly (PointsOrAborts u (u.declarations.flatMap DataDefinition.nodes))
      (declareAllData (scopeOf u before []) p ds) := by
  induction ds generalizing before p with
  | nil => exact .ok _
  | cons d ds ih =>
    have hd : FailsOnly (PointsOrAborts u (u.declarations.flatMap DataDefinition.nodes))
        (declareData (scopeOf u before []) p d) := by
      refine (declareData_failsOnly hg fun e he => hu ▸ List.mem_append_left _ he).mono ?_
      intro f hf
      refine hf.imp_left fun hpoints => hpoints.mono fun n hn => ?_
      exact List.mem_flatMap.mpr ⟨d, by simp [hu], hn⟩
    apply hd.bind
    intro r hr
    obtain ⟨gs, hgs, rfl⟩ := declareData_globals hg hr
    exact ih (p := { p with globals := gs }) hgs (by simp [hu])

theorem declareSubroutine_failsOnly {ds : List DataDefinition} {before : List Subroutine}
    {x : Subroutine} (hf : p.functions = functionsOf before)
    (hbefore : ∀ y ∈ before, y ∈ u.subroutines) :
    FailsOnly (PointsTo u x.nodes) (declareSubroutine (scopeOf u ds before) p x) := by
  unfold declareSubroutine
  by_cases hseen : ((scopeOf u ds before).functions.lookup x.id).isSome
  · rw [if_pos hseen]
    exact .ok _
  · rw [if_neg hseen]
    rw [isSome_lookup_functions] at hseen
    have hname : FailsOnly (PointsTo u x.nodes)
        (located x.span (p.declareFunction { name := x.name }).1) := by
      refine (declareFunction_failsOnly p { name := x.name }).located ?_
      intro f hfailure
      obtain ⟨htaken, rfl⟩ := hfailure
      rw [hf, names_functionsOf] at htaken
      obtain ⟨y, hy, hsame, hid⟩ := exists_of_taken hseen htaken
      exact ⟨.subroutine x, List.mem_cons_self, rfl, .sameSubroutine (hbefore y hy) hsame hid⟩
    apply hname.bind
    intro r _
    exact .ok _

theorem declareAllSubroutines_failsOnly {ds : List DataDefinition} {before xs : List Subroutine}
    (hf : p.functions = functionsOf before) (hu : u.subroutines = before ++ xs) :
    FailsOnly (PointsTo u (u.subroutines.flatMap Subroutine.nodes))
      (declareAllSubroutines (scopeOf u ds before) p xs) := by
  induction xs generalizing before p with
  | nil => exact .ok _
  | cons x xs ih =>
    have hx : FailsOnly (PointsTo u (u.subroutines.flatMap Subroutine.nodes))
        (declareSubroutine (scopeOf u ds before) p x) := by
      apply (declareSubroutine_failsOnly hf fun y hy => hu ▸ List.mem_append_left _ hy).widen
      intro n hn
      exact List.mem_flatMap.mpr ⟨x, by simp [hu], hn⟩
    apply hx.bind
    intro r hr
    obtain ⟨-, rfl⟩ := (declareSubroutine_eq_ok hf).mp hr
    exact ih rfl (by simp [hu])

/-- Everything that is declared before the first statement is lowered. -/
def declareUnit (name : String) (u : CompilationUnit) : Except Failure (Scope × Program) := do
  let (s, p) ← declareAllData { unit := u } (Program.new name) u.declarations
  declareAllSubroutines s p u.subroutines

theorem ofSource_eq_bind (name : String) (u : CompilationUnit) :
    Program.ofSource name u = declareUnit name u >>= fun r => withMain r.1 r.2 >>= fun p =>
      withBodies r.1 p u.subroutines := by
  unfold Program.ofSource declareUnit
  cases declareAllData { unit := u } (Program.new name) u.declarations with
  | error f => rfl
  | ok r => rfl

theorem declareUnit_result {name : String} {r : Scope × Program}
    (h : declareUnit name u = .ok r) :
    ∃ gs, Globals u u.declarations gs ∧ r = (unitScope u, declared name u gs) := by
  obtain ⟨q, hdata, hsubroutines⟩ := bind_eq_ok.mp h
  obtain ⟨hq, hgs⟩ := declareAllData_result hdata
  rw [hq] at hsubroutines
  obtain ⟨-, rfl⟩ := (declareAllSubroutines_eq_ok rfl).mp hsubroutines
  exact ⟨q.2.globals, hgs, rfl⟩

theorem declareUnit_failsOnly (name : String) :
    FailsOnly (PointsOrAborts u u.nodes) (declareUnit name u) := by
  have hdata : FailsOnly (PointsOrAborts u u.nodes)
      (declareAllData (scopeOf u [] []) (Program.new name) u.declarations) := by
    have hnone : Globals u [] (Program.new name).globals := .nil
    refine (declareAllData_failsOnly hnone (List.nil_append _).symm).mono ?_
    intro f hf
    refine hf.imp_left fun hpoints => hpoints.mono ?_
    simp +contextual [CompilationUnit.nodes]
  apply hdata.bind
  intro r hr
  rw [(declareAllData_result hr).1]
  refine ((declareAllSubroutines_failsOnly rfl rfl).widen ?_).mono fun f => Or.inl
  simp +contextual [CompilationUnit.nodes]

/-! ### Failures of a unit -/

/-- An entry of the parameter list that is bound to no data of the unit. -/
def UnboundEntry (u : CompilationUnit) (f : Failure) : Prop :=
  ∃ r ∈ entryReferences u, f = .unresolved r.name none ∧
    ∀ id, r.referred = some id → ¬ u.Declares id

/-- The global of a reference is there once everything is declared. -/
theorem isSome_global_declared {name : String} {gs : List Global}
    (hgs : Globals u u.declarations gs) {r : Reference DataId} {span : Option Span} {id : GlobalId}
    (h : (unitScope u).global r span = .ok id) : ((declared name u gs).global? id).isSome := by
  obtain ⟨d, -, hlookup⟩ := Scope.global_eq_ok.mp h
  exact Program.isSome_global?.mpr (hgs.lookup_lt hlookup)

theorem parameterOf_failsOnly {name : String} {gs : List Global}
    (hgs : Globals u u.declarations gs) (r : Reference DataId) :
    FailsOnly (fun f => f = .unresolved r.name none ∧
      ∀ id, r.referred = some id → ¬ u.Declares id)
      (parameterOf (unitScope u) (declared name u gs) r) := by
  have hglobal : FailsOnly (fun f => f = .unresolved r.name none ∧
      ∀ id, r.referred = some id → ¬ u.Declares id) ((unitScope u).global r none) := by
    intro f hf
    refine ⟨global_failsOnly (unitScope u) r none f hf, fun id hid hdeclared => ?_⟩
    have hfound : ∃ g, (unitScope u).global r none = .ok g :=
      (exists_global (isSome_lookup_globals _ _)).mpr ⟨id, hid, hdeclared⟩
    obtain ⟨g, hg⟩ := hfound
    rw [hg] at hf
    cases hf
  apply hglobal.bind
  intro id hid
  have hsome : ((declared name u gs).global? id).isSome := isSome_global_declared hgs hid
  obtain ⟨g, hg⟩ := Option.isSome_iff_exists.mp hsome
  simp only [hg]
  exact .ok _

theorem withMain_failsOnly {name : String} {gs : List Global}
    (hgs : Globals u u.declarations gs) :
    FailsOnly (fun f => UnboundEntry u f ∨ PointsTo u u.nodes f)
      (withMain (unitScope u) (declared name u gs)) := by
  rw [withMain_eq_bind]
  refine FailsOnly.bind (FailsOnly.mapM fun r hr => ?_) fun parameters _ => ?_
  · refine (parameterOf_failsOnly hgs r).mono fun f hf => ?_
    exact .inl ⟨r, hr, hf⟩
  · refine (((stmts_failsOnly u _ u.main).widen ?_).mono fun f => Or.inr).bind ?_
    · simp +contextual [CompilationUnit.nodes]
    · intro body _
      exact .ok _

theorem withBodies_failsOnly {s : Scope} {xs : List Subroutine}
    (hlisted : ∀ x ∈ xs, (s.functions.lookup x.id).isSome)
    (hf : ∀ id f, s.functions.lookup id = some f → f.index < p.functions.length) :
    FailsOnly (PointsTo u (xs.flatMap Subroutine.nodes)) (withBodies s p xs) := by
  induction xs generalizing p with
  | nil => exact .ok _
  | cons x xs ih =>
    obtain ⟨id, hid⟩ := Option.isSome_iff_exists.mp (hlisted x List.mem_cons_self)
    obtain ⟨f, hfunction⟩ :=
      Option.isSome_iff_exists.mp (Program.isSome_function?.mpr (hf x.id id hid))
    simp only [withBodies, hid, hfunction]
    apply ((stmts_failsOnly u s x.stmts).widen (by
      simp +contextual [Subroutine.nodes])).bind
    intro body _
    apply (ih (fun y hy => hlisted y (List.mem_cons_of_mem x hy)) ?_).widen
    · simp +contextual
    · rw [length_modifyFunction]
      exact hf

theorem bodies_failsOnly {name : String} {gs : List Global}
    (h : withMain (unitScope u) (declared name u gs) = .ok p) :
    FailsOnly (PointsTo u u.nodes) (withBodies (unitScope u) p u.subroutines) := by
  have hlisted : ∀ x ∈ u.subroutines, ((unitScope u).functions.lookup x.id).isSome :=
    fun x hx => (isSome_lookup_functions _ _ _).mpr (List.mem_map_of_mem hx)
  apply (withBodies_failsOnly hlisted (lookup_lt_of_withMain h)).widen
  simp +contextual [CompilationUnit.nodes]

theorem ofSource_failsOnly (name : String) (u : CompilationUnit) :
    FailsOnly (fun f => f = .aborted .digitCount ∨ UnboundEntry u f ∨ PointsTo u u.nodes f)
      (Program.ofSource name u) := by
  rw [ofSource_eq_bind]
  refine ((declareUnit_failsOnly name).mono fun f hf => ?_).bind ?_
  · rcases hf with hpoints | habort
    · exact .inr (.inr hpoints)
    · exact .inl habort
  · intro r hr
    obtain ⟨gs, hgs, rfl⟩ := declareUnit_result hr
    refine ((withMain_failsOnly hgs).mono fun f => Or.inr).bind ?_
    intro p hp
    exact (bodies_failsOnly hp).mono fun f hf => .inr (.inr hf)

theorem isSome_function_withBodies {s : Scope} {p q : Program} {xs : List Subroutine}
    (h : withBodies s p xs = .ok q) (id : FunctionId) :
    (q.function? id).isSome = (p.function? id).isSome := by
  have hrel := (withBodies_filled h).2 id
  generalize p.function? id = o at hrel
  generalize q.function? id = o' at hrel
  cases hrel with
  | none => rfl
  | some _ => rfl

/-- What one phase looks up in the tables of another is there, so that no lookup fails but that of
a name in the unit. -/
structure Registered (name : String) (u : CompilationUnit) : Prop where
  initial : ∀ s p d r, declareGlobalOf s p d = .ok r → (r.2.2.global? r.1).isSome
  parameter : ∀ s p r id, declareUnit name u = .ok (s, p) → s.global r none = .ok id →
    (p.global? id).isSome
  body : ∀ s p p' q done x rest, declareUnit name u = .ok (s, p) → withMain s p = .ok p' →
    u.subroutines = done ++ x :: rest → withBodies s p' done = .ok q →
    ∃ id, s.functions.lookup x.id = some id ∧ (q.function? id).isSome

theorem registered (name : String) (u : CompilationUnit) : Registered name u where
  initial _ _ _ _ h := isSome_declareGlobalOf h
  parameter := by
    intro s p r id hdeclared hid
    obtain ⟨gs, hgs, ⟨⟩⟩ := declareUnit_result hdeclared
    exact isSome_global_declared hgs hid
  body := by
    intro s p p' q done x rest hdeclared hp' hu hq
    obtain ⟨gs, hgs, ⟨⟩⟩ := declareUnit_result hdeclared
    have hx : ((unitScope u).functions.lookup x.id).isSome :=
      (isSome_lookup_functions _ _ _).mpr (List.mem_map_of_mem (by simp [hu]))
    obtain ⟨id, hid⟩ := Option.isSome_iff_exists.mp hx
    refine ⟨id, hid, ?_⟩
    rw [isSome_function_withBodies hq]
    exact Program.isSome_function?.mpr (lookup_lt_of_withMain hp' x.id id hid)

/-- A failure points at what it names. In a unit with positions it has the position of a part of
the unit that its text names, and only a parameter that is bound to nothing is reported without one;
what one phase registers, another finds. -/
theorem failure_position {name : String} {u : CompilationUnit} {f : Failure} (hspans : u.Spanned)
    (h : Program.ofSource name u = .error f) (hreturned : ∀ limit, f ≠ .aborted limit) :
    (f.isUnsupported ∨ f.isUnresolved) ∧
    (UnboundEntry u f ∨ ∃ n ∈ u.nodes, ∃ s, n.span = some s ∧ f.span = some s ∧ n.Named u f) ∧
    Registered name u := by
  rcases ofSource_failsOnly name u f h with habort | hentry | hpoints
  · exact absurd habort (hreturned _)
  · have hkind : f.isUnresolved := by
      obtain ⟨r, -, rfl, -⟩ := hentry
      rfl
    exact ⟨.inr hkind, .inl hentry, registered name u⟩
  · have hkind := hpoints.isReported
    obtain ⟨n, hn, hspan, hnamed⟩ := hpoints
    obtain ⟨s, hs⟩ := Option.isSome_iff_exists.mp (hspans n hn)
    exact ⟨hkind, .inr ⟨n, hn, s, hs, hspan ▸ hs, hnamed⟩, registered name u⟩

/-- A unit whose subroutine counts down, with a position for every part. -/
def countingDown : CompilationUnit :=
  let place (line : UInt32) : Option Span := some ⟨⟨line, 1⟩, ⟨line, 80⟩⟩
  let count (line : UInt32) : Source.Expr := .data (place line) ⟨"COUNT", some ⟨1⟩⟩
  { data := [{ id := ⟨1⟩, name := "COUNT", ty := .number 5 0, span := place 1 }]
    subroutines := [
      { id := ⟨1⟩, name := "DOWN", span := place 4
        stmts := [
          .loop (place 5) (.assign (place 5) (count 5) (.int (place 5) 9)) (.int (place 5) 1) none
            true [.display (place 6) none (some (count 6))]] }]
    main := [.execute (place 2) ⟨"DOWN", some ⟨1⟩⟩] }

theorem failure_position_countingDown :
    let f : Failure := .shape "FOR" "DOWNTO loops are not supported" (some ⟨⟨5, 1⟩, ⟨5, 80⟩⟩)
    countingDown.Spanned ∧ Program.ofSource "Test" countingDown = .error f ∧
      ∃ n ∈ countingDown.nodes, ∃ s, n.span = some s ∧ f.span = some s ∧
        n.Named countingDown f := by
  intro f
  have hspans : countingDown.Spanned := by
    unfold CompilationUnit.Spanned
    decide
  have hfails : Program.ofSource "Test" countingDown = .error f := rfl
  have hentry : ¬ UnboundEntry countingDown f := by
    intro hunbound
    obtain ⟨r, hr, -⟩ := hunbound
    cases hr
  exact ⟨hspans, hfails, (failure_position hspans hfails nofun).2.1.resolve_left hentry⟩

end Core

end RpgLowering
