import RpgLowering.Proofs.Lowered

/-! What lowering ignores: the names in references, positions, the first factor of `DSPLY`, the mark of
an entry list, and the statements `PLIST`, `SETON` and `SETOFF`. Units that are equal without them are
lowered to one program, or fail for one cause. -/
namespace RpgLowering

/-! ### Causes of failures -/

/-- What went wrong, without the position and without the name that a reference has. -/
def Failure.cause : Failure → Failure
  | unsupported construct _ => unsupported construct none
  | shape construct reason _ => shape construct reason none
  | unresolved _ _ => unresolved "" none
  | generic text => generic text
  | aborted limit => aborted limit

theorem Failure.cause_orAt (f : Failure) (span : Option Span) : (f.orAt span).cause = f.cause := by
  cases f <;> rfl

/-- Both steps fail for one cause, or both succeed with related results. -/
inductive Agree {α β : Type} (R : α → β → Prop) : Except Failure α → Except Failure β → Prop where
  | ok {a b} : R a b → Agree R (.ok a) (.ok b)
  | error {f g} : f.cause = g.cause → Agree R (.error f) (.error g)

namespace Agree
variable {α β γ δ : Type} {R : α → β → Prop} {S : γ → δ → Prop}

theorem bind {x : Except Failure α} {y : Except Failure β} {f : α → Except Failure γ}
    {g : β → Except Failure δ} (h : Agree R x y) (hfg : ∀ a b, R a b → Agree S (f a) (g b)) :
    Agree S (x >>= f) (y >>= g) := by
  cases h with
  | ok hab => exact hfg _ _ hab
  | error hcause => exact .error hcause

/-- Equal results can be put into what follows. -/
theorem bind_eq {x y : Except Failure α} {f : α → Except Failure γ} {g : α → Except Failure δ}
    (h : Agree Eq x y) (hfg : ∀ a, Agree S (f a) (g a)) : Agree S (x >>= f) (y >>= g) := by
  apply h.bind
  intro a b hab
  subst hab
  exact hfg a

theorem refl (x : Except Failure α) : Agree Eq x x := by
  cases x with
  | ok a => exact .ok rfl
  | error f => exact .error rfl

theorem of_common {x y z : Except Failure α} (hx : Agree Eq x z) (hy : Agree Eq y z) :
    Agree Eq x y := by
  cases hx with
  | ok hab =>
    cases hy with
    | ok hcb => exact .ok (hab.trans hcb.symm)
  | error hcause =>
    cases hy with
    | error hcause' => exact .error (hcause.trans hcause'.symm)

theorem located {x : Except Failure α} {y : Except Failure β} (h : Agree R x y)
    (span span' : Option Span) : Agree R (Core.located span x) (Core.located span' y) := by
  cases h with
  | ok hab => exact .ok hab
  | error hcause =>
    apply error
    rw [Failure.cause_orAt, Failure.cause_orAt]
    exact hcause

theorem mapM {f : α → Except Failure γ} {g : β → Except Failure γ} {k : α → β}
    (h : ∀ a, Agree Eq (f a) (g (k a))) (l : List α) : Agree Eq (l.mapM f) ((l.map k).mapM g) := by
  induction l with
  | nil => exact .ok rfl
  | cons a l ih =>
    rw [List.map_cons, List.mapM_cons, List.mapM_cons]
    apply (h a).bind_eq
    intro c
    apply ih.bind_eq
    intro cs
    exact .ok rfl

end Agree

/-! ### Units without what is ignored -/

namespace Source

def Reference.erase {ι : Type} (r : Reference ι) : Reference ι := { r with name := "" }

def Expr.erase : Expr → Expr
  | .int _ v => .int none v
  | .real _ x => .real none x
  | .string _ t => .string none t
  | .boolean _ b => .boolean none b
  | .data _ r => .data none r.erase
  | .binary _ op left right => .binary none op left.erase right.erase
  | .unary _ op e => .unary none op e.erase
  | .assign _ target value => .assign none target.erase value.erase
  | .dec _ value digits places => .dec none value.erase digits.erase places.erase

def ParameterList.erase (l : ParameterList) : ParameterList :=
  { parameters := l.parameters.map (·.erase), isEntry := false }

mutual

/-- The statement, or nothing if it is ignored as a whole. -/
def Stmt.erase : Stmt → Option Stmt
  | .plist .. | .set .. => none
  | .eval _ target value => some (.eval none target.erase value.erase)
  | .execute _ r => some (.execute none r.erase)
  | .clear _ target => some (.clear none target.erase)
  | .display _ _ response => some (.display none none (response.map (·.erase)))
  | .select _ cases other => some (.select none (Stmt.eraseCases cases) (Stmt.eraseOther other))
  | .loop _ init limit step down body =>
    some (.loop none init.erase limit.erase (step.map (·.erase)) down (Stmt.eraseAll body))
  | .branch _ condition body otherwise =>
    some (.branch none condition.erase (Stmt.eraseAll body) (Stmt.eraseOther otherwise))
  | .doWhile _ condition body => some (.doWhile none condition.erase (Stmt.eraseAll body))
  | .move _ target value => some (.move none target.erase value.erase)
  | .ret _ value => some (.ret none (value.map (·.erase)))
  | .leave _ => some (.leave none)
  | .iterate _ => some (.iterate none)

def Stmt.eraseAll : List Stmt → List Stmt
  | [] => []
  | t :: ts => (Stmt.erase t).toList ++ Stmt.eraseAll ts

def Stmt.eraseCases : List (Expr × List Stmt) → List (Expr × List Stmt)
  | [] => []
  | (condition, body) :: cases => (condition.erase, Stmt.eraseAll body) :: Stmt.eraseCases cases

def Stmt.eraseOther : Option (List Stmt) → Option (List Stmt)
  | none => none
  | some body => some (Stmt.eraseAll body)

end

def DataDefinition.erase (d : DataDefinition) : DataDefinition :=
  { d with initial := d.initial.map (·.erase), span := none }

def InStatementDefinition.erase (d : InStatementDefinition) : InStatementDefinition :=
  { d with span := none }

def Subroutine.erase (x : Subroutine) : Subroutine :=
  { x with stmts := Stmt.eraseAll x.stmts, span := none }

/-- Declarations keep their identities and names, and references keep what they are bound to. -/
def CompilationUnit.erase (u : CompilationUnit) : CompilationUnit :=
  { data := u.data.map (·.erase)
    inStatement := u.inStatement.map (·.erase)
    subroutines := u.subroutines.map (·.erase)
    main := Stmt.eraseAll u.main
    entry := u.entry.map (·.erase) }

theorem CompilationUnit.declarations_erase (u : CompilationUnit) :
    u.erase.declarations = u.declarations.map (·.erase) := by
  rw [CompilationUnit.declarations, CompilationUnit.declarations, List.map_append]
  simp only [CompilationUnit.erase, List.map_map]
  rfl

theorem CompilationUnit.declaration?_erase (u : CompilationUnit) (id : DataId) :
    u.erase.declaration? id = (u.declaration? id).map (·.erase) := by
  rw [CompilationUnit.declaration?, CompilationUnit.declarations_erase, List.find?_map]
  rfl

/-- A reference without a type may lack it under another name. -/
theorem CompilationUnit.typeOf_erase (u : CompilationUnit) (r : Reference DataId) :
    (u.erase.typeOf r.erase).toOption = (u.typeOf r).toOption := by
  unfold CompilationUnit.typeOf Reference.erase
  cases r.referred with
  | none => rfl
  | some id =>
    simp only [CompilationUnit.declaration?_erase]
    cases u.declaration? id <;> rfl

theorem decType_erase (digits places : Expr) :
    decType digits.erase places.erase = decType digits places := by
  cases digits with
  | int => cases places <;> rfl
  | _ => rfl

theorem joinTypes_congr (t : Ty) {x y : Except TypeError Ty} (h : x.toOption = y.toOption) :
    joinTypes t x = joinTypes t y := by
  cases x with
  | ok a =>
    cases y with
    | ok b =>
      obtain rfl : a = b := Option.some.inj h
      rfl
    | error err => cases h
  | error err =>
    cases y with
    | ok b => cases h
    | error err' => cases t <;> rfl

theorem Expr.staticType_erase (u : CompilationUnit) (e : Expr) :
    (e.erase.staticType u.erase).toOption = (e.staticType u).toOption := by
  induction e with
  | int | real | string | boolean | unary | assign => rfl
  | data span r => exact u.typeOf_erase r
  | binary span op left right ihl ihr =>
    cases op with
    | plus =>
      have hjoin := fun t => joinTypes_congr t ihr
      rw [Expr.erase, Expr.staticType, Expr.staticType]
      revert ihl
      cases left.erase.staticType u.erase <;> cases left.staticType u <;> intro ihl <;> cases ihl
      · rfl
      · exact congrArg some (hjoin _)
    | minus => exact ihl
    | _ => rfl
  | dec span value digits places =>
    rw [Expr.erase, Expr.staticType, Expr.staticType, decType_erase]

end Source

/-! ### Lowering without what is ignored -/

namespace Core
open RpgLowering.Source (CompilationUnit DataDefinition DataId Reference Subroutine SubroutineId)
variable (s : Scope)

theorem isText_erase (u : CompilationUnit) (e : Source.Expr) :
    isText u.erase e.erase = isText u e := by
  have htype := e.staticType_erase u
  unfold isText
  revert htype
  cases e.erase.staticType u.erase <;> cases e.staticType u <;> intro htype <;> cases htype
  · rfl
  · rfl

/-- The same globals and functions, with the unit as it counts. -/
def Scope.erase : Scope := { s with unit := s.unit.erase }

theorem agree_global (r : Reference DataId) (span span' : Option Span) :
    Agree Eq (s.global r span) (s.erase.global r.erase span') := by
  have hbound : r.erase.referred.bind (s.erase.globals.lookup ·) =
      r.referred.bind (s.globals.lookup ·) := rfl
  rw [Scope.global, Scope.global, hbound]
  cases r.referred.bind (s.globals.lookup ·) with
  | none => exact .error rfl
  | some id => exact .ok rfl

theorem agree_function (r : Reference SubroutineId) (span span' : Option Span) :
    Agree Eq (s.function r span) (s.erase.function r.erase span') := by
  have hbound : r.erase.referred.bind (s.erase.functions.lookup ·) =
      r.referred.bind (s.functions.lookup ·) := rfl
  rw [Scope.function, Scope.function, hbound]
  cases r.referred.bind (s.functions.lookup ·) with
  | none => exact .error rfl
  | some id => exact .ok rfl

theorem agree_expr (e : Source.Expr) :
    Agree Eq (Expr.ofSource s e) (Expr.ofSource s.erase e.erase) := by
  induction e with
  | int | real | string => exact .ok rfl
  | boolean | assign => exact .error rfl
  | data span r =>
    apply (agree_global s r span none).bind_eq
    intro id
    exact .ok rfl
  | binary span op left right ihl ihr =>
    cases op with
    | plus =>
      have htext : isText s.erase.unit left.erase = isText s.unit left := isText_erase s.unit left
      rw [Source.Expr.erase, Expr.ofSource, Expr.ofSource, htext]
      apply ihl.bind_eq
      intro l
      apply ihr.bind_eq
      intro r
      exact .ok rfl
    | equality =>
      apply ihl.bind_eq
      intro l
      apply ihr.bind_eq
      intro r
      exact .ok rfl
    | _ => exact .error rfl
  | unary span op e ih =>
    cases op with
    | char =>
      apply ih.bind_eq
      intro v
      exact .ok rfl
    | _ => exact .error rfl
  | dec span value digits places ih =>
    apply ih.bind_eq
    intro v
    exact .ok rfl

theorem agree_target (e : Source.Expr) :
    Agree Eq (targetOf s e) (targetOf s.erase e.erase) := by
  cases e with
  | data span r => exact agree_global s r span none
  | _ => exact .error rfl

theorem agree_loopStart (span : Option Span) (init : Source.Expr) (step : Option Source.Expr)
    (down : Bool) : Agree (fun a b => b = (a.1.erase, a.2.erase)) (loopStart span init step down)
      (loopStart none init.erase (step.map (·.erase)) down) := by
  have hinit : Agree (fun a b => b = (a.1.erase, a.2.erase)) (loopStart span init none false)
      (loopStart none init.erase none false) := by
    cases init with
    | assign place target value => exact .ok rfl
    | _ => exact .error rfl
  cases down with
  | true => exact .error rfl
  | false =>
    cases step with
    | none => exact hinit
    | some e =>
      cases e with
      | int place v =>
        by_cases hv : v = 1
        · subst hv
          exact hinit
        · have hstep : ∀ span' place' init', loopStart span' init' (some (.int place' v)) false =
              .error (.shape "FOR" "step must be the literal 1" span') := by
            intro span' place' init'
            simp [loopStart, hv]
          rw [Option.map_some, Source.Expr.erase, hstep, hstep]
          exact .error rfl
      | _ => exact .error rfl

/-- A statement that is not ignored, as a list of its own. -/
theorem agree_single {t t' : Source.Stmt} {s' : Scope}
    (h : Agree Eq (Stmt.ofSource s t) (Stmt.ofSource s' t')) :
    Agree (fun o ts => o.toList = ts) (Stmt.ofSource s t) (Stmt.ofSources s' [t']) := by
  rw [Stmt.ofSources, ← bind_pure (Stmt.ofSource s t)]
  apply h.bind_eq
  intro o
  apply Agree.ok
  rw [List.append_nil]

theorem ofSources_append (ts ts' : List Source.Stmt) : Stmt.ofSources s (ts ++ ts') =
    Stmt.ofSources s ts >>= fun first => Stmt.ofSources s ts' >>= fun rest =>
      .ok (first ++ rest) := by
  induction ts with
  | nil => exact (bind_pure (Stmt.ofSources s ts')).symm
  | cons t ts ih =>
    rw [List.cons_append, Stmt.ofSources, Stmt.ofSources, ih]
    simp only [bind_assoc]
    congr 1
    funext o
    congr 1
    funext first
    simp only [bind, Except.bind, List.append_assoc]

mutual

theorem agree_stmt (t : Source.Stmt) : Agree (fun o ts => o.toList = ts) (Stmt.ofSource s t)
    (Stmt.ofSources s.erase t.erase.toList) := by
  cases t with
  | plist | set => exact .ok rfl
  | eval span target value =>
    apply agree_single
    apply (agree_target s target).bind_eq
    intro g
    apply (agree_expr s value).bind_eq
    intro v
    exact .ok rfl
  | execute span r =>
    apply agree_single
    apply (agree_function s r span none).bind_eq
    intro f
    exact .ok rfl
  | clear span target =>
    apply agree_single
    apply (agree_target s target).bind_eq
    intro g
    exact .ok rfl
  | display span factor response =>
    apply agree_single
    cases response with
    | none => exact .error rfl
    | some e =>
      apply (agree_expr s e).bind_eq
      intro v
      exact .ok rfl
  | select span cases other =>
    apply agree_single
    apply (agree_cases cases).bind_eq
    intro cases'
    apply (agree_other other).bind_eq
    intro other'
    exact .ok rfl
  | loop span init limit step down body =>
    apply agree_single
    apply (agree_loopStart span init step down).bind
    intro start start' hstart
    subst hstart
    apply (agree_target s start.1).bind_eq
    intro g
    apply (agree_expr s start.2).bind_eq
    intro low
    apply (agree_expr s limit).bind_eq
    intro high
    apply (agree_stmts body).bind_eq
    intro body'
    exact .ok rfl
  | _ => exact .error rfl

theorem agree_stmts (ts : List Source.Stmt) :
    Agree Eq (Stmt.ofSources s ts) (Stmt.ofSources s.erase (Source.Stmt.eraseAll ts)) := by
  match ts with
  | [] => exact .ok rfl
  | t :: ts =>
    rw [Stmt.ofSources, Source.Stmt.eraseAll, ofSources_append]
    apply (agree_stmt t).bind
    intro o first hfirst
    apply (agree_stmts ts).bind_eq
    intro rest
    apply Agree.ok
    rw [hfirst]

theorem agree_cases (cases : List (Source.Expr × List Source.Stmt)) :
    Agree Eq (Stmt.ofCases s cases) (Stmt.ofCases s.erase (Source.Stmt.eraseCases cases)) := by
  match cases with
  | [] => exact .ok rfl
  | (condition, body) :: cases =>
    apply (agree_expr s condition).bind_eq
    intro condition'
    apply (agree_stmts body).bind_eq
    intro body'
    apply (agree_cases cases).bind_eq
    intro cases'
    exact .ok rfl

theorem agree_other (other : Option (List Source.Stmt)) :
    Agree Eq (Stmt.ofOther s other) (Stmt.ofOther s.erase (Source.Stmt.eraseOther other)) := by
  cases other with
  | none => exact .ok rfl
  | some body =>
    apply (agree_stmts body).bind_eq
    intro body'
    exact .ok rfl

end

variable (p : Program)

theorem agree_declareGlobalOf (d : DataDefinition) :
    Agree (fun a b => b = (a.1, a.2.1.erase, a.2.2)) (declareGlobalOf s p d)
      (declareGlobalOf s.erase p d.erase) := by
  apply ((Agree.refl d.ty.toCore).located d.span none).bind_eq
  intro ty
  apply ((Agree.refl (p.declareGlobal { name := d.name, ty }).1).located d.span none).bind_eq
  intro r
  exact .ok rfl

theorem agree_declareData (d : DataDefinition) :
    Agree (fun a b => b = (a.1.erase, a.2)) (declareData s p d)
      (declareData s.erase p d.erase) := by
  have hseen : (s.erase.globals.lookup d.erase.id).isSome = (s.globals.lookup d.id).isSome := rfl
  rw [declareData, declareData, hseen]
  split
  · exact .ok rfl
  · apply (agree_declareGlobalOf s p d).bind
    intro r r' hr
    subst hr
    have hinitial : d.erase.initial = d.initial.map (·.erase) := rfl
    rw [hinitial]
    cases d.initial with
    | none => exact .ok rfl
    | some e =>
      apply (agree_expr r.2.1 e).bind_eq
      intro value
      cases r.2.2.global? r.1 with
      | none => exact .error rfl
      | some g => exact .ok rfl

theorem agree_declareAllData (ds : List DataDefinition) :
    Agree (fun a b => b = (a.1.erase, a.2)) (declareAllData s p ds)
      (declareAllData s.erase p (ds.map (·.erase))) := by
  induction ds generalizing s p with
  | nil => exact .ok rfl
  | cons d ds ih =>
    apply (agree_declareData s p d).bind
    intro r r' hr
    subst hr
    exact ih r.1 r.2

theorem agree_declareSubroutine (x : Subroutine) :
    Agree (fun a b => b = (a.1.erase, a.2)) (declareSubroutine s p x)
      (declareSubroutine s.erase p x.erase) := by
  have hseen : (s.erase.functions.lookup x.erase.id).isSome = (s.functions.lookup x.id).isSome :=
    rfl
  rw [declareSubroutine, declareSubroutine, hseen]
  split
  · exact .ok rfl
  · apply ((Agree.refl (p.declareFunction { name := x.name }).1).located x.span none).bind_eq
    intro r
    exact .ok rfl

theorem agree_declareAllSubroutines (xs : List Subroutine) :
    Agree (fun a b => b = (a.1.erase, a.2)) (declareAllSubroutines s p xs)
      (declareAllSubroutines s.erase p (xs.map (·.erase))) := by
  induction xs generalizing s p with
  | nil => exact .ok rfl
  | cons x xs ih =>
    apply (agree_declareSubroutine s p x).bind
    intro r r' hr
    subst hr
    exact ih r.1 r.2

theorem agree_parameterOf (r : Reference DataId) :
    Agree Eq (parameterOf s p r) (parameterOf s.erase p r.erase) := by
  apply (agree_global s r none none).bind_eq
  intro id
  cases p.global? id with
  | none => exact .error rfl
  | some g => exact .ok rfl

theorem entryReferences_erase (u : CompilationUnit) :
    entryReferences u.erase = (entryReferences u).map (·.erase) := by
  unfold entryReferences CompilationUnit.erase
  cases u.entry with
  | none => rfl
  | some list => rfl

theorem agree_withMain : Agree Eq (withMain s p) (withMain s.erase p) := by
  have hreferences : entryReferences s.erase.unit = (entryReferences s.unit).map (·.erase) :=
    entryReferences_erase s.unit
  rw [withMain_eq_bind, withMain_eq_bind, hreferences]
  apply (Agree.mapM (agree_parameterOf s p) (entryReferences s.unit)).bind_eq
  intro parameters
  apply (agree_stmts s s.unit.main).bind_eq
  intro body
  exact .ok rfl

theorem agree_withBodies (xs : List Subroutine) :
    Agree Eq (withBodies s p xs) (withBodies s.erase p (xs.map (·.erase))) := by
  induction xs generalizing p with
  | nil => exact .ok rfl
  | cons x xs ih =>
    have hlookup : s.erase.functions.lookup x.erase.id = s.functions.lookup x.id := rfl
    rw [List.map_cons, withBodies, withBodies, hlookup]
    cases s.functions.lookup x.id with
    | none => exact .error rfl
    | some id =>
      apply (agree_stmts s x.stmts).bind_eq
      intro body
      cases p.function? id with
      | none => exact .error rfl
      | some f => exact ih _

/-- A unit and what of it counts are lowered alike. -/
theorem agree_ofSource (name : String) (u : CompilationUnit) :
    Agree Eq (Program.ofSource name u) (Program.ofSource name u.erase) := by
  have hdata := agree_declareAllData { unit := u } (Program.new name) u.declarations
  rw [← CompilationUnit.declarations_erase] at hdata
  apply hdata.bind
  intro r r' hr
  subst hr
  apply (agree_declareAllSubroutines r.1 r.2 u.subroutines).bind
  intro r r' hr
  subst hr
  apply (agree_withMain r.1 r.2).bind_eq
  intro p
  exact agree_withBodies r.1 p u.subroutines

/-- Lowering cannot be influenced by what it ignores: units that are equal without it are lowered to
the same program, and if one fails, so does the other, for the same cause. -/
theorem ofSource_of_erase_eq {u v : CompilationUnit} (h : u.erase = v.erase) (name : String) :
    (∀ p, Program.ofSource name u = .ok p ↔ Program.ofSource name v = .ok p) ∧
    ∀ f, Program.ofSource name u = .error f →
      ∃ g, Program.ofSource name v = .error g ∧ g.cause = f.cause := by
  have hv := agree_ofSource name v
  rw [← h] at hv
  have huv := (agree_ofSource name u).of_common hv
  generalize Program.ofSource name u = x, Program.ofSource name v = y at huv
  cases huv with
  | ok hpq =>
    subst hpq
    exact ⟨fun p => Iff.rfl, nofun⟩
  | @error f g hcause =>
    refine ⟨fun p => ⟨nofun, nofun⟩, ?_⟩
    intro f' hf'
    cases hf'
    exact ⟨g, rfl, hcause.symm⟩

/-- A unit that shows its data in a loop of a subroutine, with further statements at every depth. -/
def showing (spelled : String) (bound : Option DataId) (span : Option Span)
    (factor : Option Source.Expr) (further : List Source.Stmt) : CompilationUnit :=
  let total : Source.Expr := .data span ⟨spelled, bound⟩
  { data := [{ id := ⟨1⟩, name := "TOTAL", ty := .number 5 0, span }]
    subroutines := [
      { id := ⟨2⟩, name := "SHOW", span, stmts := further ++ [
        .loop span (.assign span (.data span ⟨spelled, some ⟨1⟩⟩) (.int span 1)) (.int span 3) none
          false (.display span factor (some total) :: further)] }]
    main := [
      .select span [(.binary span .equality total (.int span 2), further)]
        (some (further ++ [.execute span ⟨spelled, some ⟨2⟩⟩]))]
    entry := some { parameters := [⟨spelled, some ⟨1⟩⟩], isEntry := factor.isSome } }

/-- Bound, the data is shown by one program whatever it is called; unbound, the failures differ in
the name and the position. -/
theorem ofSource_showing :
    let u := fun bound => showing "TOTAL" bound none none []
    let v := fun bound => showing "total" bound (some ⟨⟨3, 1⟩, ⟨3, 9⟩⟩) (some (.string none "?"))
      [.set none .on ["LR"], .plist none ⟨[⟨"X", none⟩], false⟩]
    (∀ bound, (u bound).erase = (v bound).erase) ∧
    (∃ p, Program.ofSource "Show" (u (some ⟨1⟩)) = .ok p ∧
      Program.ofSource "Show" (v (some ⟨1⟩)) = .ok p) ∧
    ∃ f g, Program.ofSource "Show" (u none) = .error f ∧
      Program.ofSource "Show" (v none) = .error g ∧ g.cause = f.cause ∧ g ≠ f := by
  intro u v
  have herase : ∀ bound, (u bound).erase = (v bound).erase := fun _ => rfl
  have hbound := (ofSource_of_erase_eq (herase (some ⟨1⟩)) "Show").1
  have hunbound := (ofSource_of_erase_eq (herase none) "Show").2
  refine ⟨herase, ⟨_, rfl, (hbound _).mp rfl⟩, ?_⟩
  obtain ⟨g, hg, hcause⟩ := hunbound (.unresolved "TOTAL" none) rfl
  refine ⟨_, g, rfl, hg, hcause, ?_⟩
  cases hg
  decide

end Core

end RpgLowering
