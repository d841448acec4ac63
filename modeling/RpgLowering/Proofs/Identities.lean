import RpgLowering.Proofs.Members
import RpgLowering.Proofs.Supported

/-! What becomes of the identities of a unit. An identity of data is one global, made of its first
declaration, and every reference bound to it is lowered to this global. An identity of a subroutine
is one function, which has the name of the first subroutine and the statements of the last. -/
namespace RpgLowering.Source

/-- The data references that lowering follows, in its order. The digits and places of `%DEC` are
not among them. -/
def Expr.references : Expr → List (Reference DataId)
  | .data _ r => [r]
  | .binary _ _ left right => left.references ++ right.references
  | .unary _ _ e => e.references
  | .assign _ target value => target.references ++ value.references
  | .dec _ value _ _ => value.references
  | .int .. | .real .. | .string .. | .boolean .. => []

mutual

/-- Nothing is followed in a statement that is dropped or cannot be lowered. -/
def Stmt.references : Stmt → List (Reference DataId)
  | .eval _ target value => target.references ++ value.references
  | .clear _ target => target.references
  | .display _ _ response => (response.map Expr.references).getD []
  | .select _ cases other => Stmt.caseReferences cases ++ Stmt.otherReferences other
  | .loop _ init limit _ _ body =>
    init.references ++ (limit.references ++ Stmt.allReferences body)
  | _ => []

def Stmt.allReferences : List Stmt → List (Reference DataId)
  | [] => []
  | t :: ts => Stmt.references t ++ Stmt.allReferences ts

def Stmt.caseReferences : List (Expr × List Stmt) → List (Reference DataId)
  | [] => []
  | (condition, body) :: cases =>
    condition.references ++ (Stmt.allReferences body ++ Stmt.caseReferences cases)

def Stmt.otherReferences : Option (List Stmt) → List (Reference DataId)
  | none => []
  | some body => Stmt.allReferences body

end

end RpgLowering.Source

namespace RpgLowering.Core
open RpgLowering.Source (CompilationUnit DataDefinition DataId InStatementDefinition Reference
  Subroutine SubroutineId)
variable {u : CompilationUnit} {p : Program} {s : Scope} {name : String}

/-- The globals that an expression reads, from left to right. -/
def Expr.globalIds : Expr → List GlobalId
  | .global id => [id]
  | .parse e | .format e => e.globalIds
  | .concat l r | .sum l r | .equal l r => l.globalIds ++ r.globalIds
  | .integer _ | .decimal _ | .string _ => []

mutual

/-- The globals that a statement reads or changes, in the order of its parts. -/
def Stmt.globalIds : Stmt → List GlobalId
  | .assign target value => target :: value.globalIds
  | .reset target => [target]
  | .call _ => []
  | .print e => e.globalIds
  | .switch cases default? => Stmt.caseGlobalIds cases ++ Stmt.defaultGlobalIds default?
  | .loop counter low high body =>
    counter :: (low.globalIds ++ (high.globalIds ++ Stmt.allGlobalIds body))

def Stmt.allGlobalIds : List Stmt → List GlobalId
  | [] => []
  | t :: ts => Stmt.globalIds t ++ Stmt.allGlobalIds ts

def Stmt.caseGlobalIds : List (Expr × List Stmt) → List GlobalId
  | [] => []
  | (condition, body) :: cases =>
    condition.globalIds ++ (Stmt.allGlobalIds body ++ Stmt.caseGlobalIds cases)

def Stmt.defaultGlobalIds : Option (List Stmt) → List GlobalId
  | none => []
  | some body => Stmt.allGlobalIds body

end

theorem Stmt.allGlobalIds_append (ts ts' : List Stmt) :
    Stmt.allGlobalIds (ts ++ ts') = Stmt.allGlobalIds ts ++ Stmt.allGlobalIds ts' := by
  induction ts with
  | nil => rfl
  | cons t ts ih =>
    rw [List.cons_append, Stmt.allGlobalIds, ih, Stmt.allGlobalIds, List.append_assoc]

/-- The reference is bound to an identity that stands for the global. -/
def Scope.Binds (s : Scope) (r : Reference DataId) (g : GlobalId) : Prop :=
  ∃ id, r.referred = some id ∧ s.globals.lookup id = some g

theorem binds_target {e : Source.Expr} {g : GlobalId} (h : targetOf s e = .ok g) :
    List.Forall₂ s.Binds e.references [g] := by
  cases e with
  | data span r => exact .cons (Scope.global_eq_ok.mp h) .nil
  | _ => cases h

theorem binds_expr {e : Source.Expr} {e' : Expr} (h : Expr.ofSource s e = .ok e') :
    List.Forall₂ s.Binds e.references e'.globalIds := by
  induction e generalizing e' with
  | int | real | string =>
    cases h
    exact .nil
  | boolean | assign => cases h
  | data span r =>
    simp only [Expr.ofSource, bind_eq_ok] at h
    obtain ⟨g, hg, ⟨⟩⟩ := h
    exact .cons (Scope.global_eq_ok.mp hg) .nil
  | binary span op left right ihl ihr =>
    cases op with
    | plus =>
      simp only [Expr.ofSource, bind_eq_ok] at h
      obtain ⟨l, hl, r, hr, ⟨⟩⟩ := h
      have hparts := List.rel_append (ihl hl) (ihr hr)
      by_cases htext : isText s.unit left = true
      · rw [if_pos htext]
        exact hparts
      · rw [if_neg htext]
        exact hparts
    | equality =>
      simp only [Expr.ofSource, bind_eq_ok] at h
      obtain ⟨l, hl, r, hr, ⟨⟩⟩ := h
      exact List.rel_append (ihl hl) (ihr hr)
    | _ => cases h
  | unary span op e ih =>
    cases op with
    | char =>
      simp only [Expr.ofSource, bind_eq_ok] at h
      obtain ⟨v, hv, ⟨⟩⟩ := h
      have hbinds := ih hv
      exact hbinds
    | _ => cases h
  | dec span value digits places ih =>
    simp only [Expr.ofSource, bind_eq_ok] at h
    obtain ⟨v, hv, ⟨⟩⟩ := h
    have hbinds := ih hv
    exact hbinds

mutual

theorem binds_stmt (t : Source.Stmt) {o : Option Stmt} (h : Stmt.ofSource s t = .ok o) :
    List.Forall₂ s.Binds t.references (Stmt.allGlobalIds o.toList) := by
  cases t with
  | plist | set =>
    cases h
    exact .nil
  | eval span target value =>
    simp only [Stmt.ofSource, bind_eq_ok] at h
    obtain ⟨g, hg, v, hv, ⟨⟩⟩ := h
    rw [Option.toList_some, Stmt.allGlobalIds, Stmt.allGlobalIds, List.append_nil]
    exact List.rel_append (binds_target hg) (binds_expr hv)
  | execute span r =>
    simp only [Stmt.ofSource, bind_eq_ok] at h
    obtain ⟨f, hf, ⟨⟩⟩ := h
    exact .nil
  | clear span target =>
    simp only [Stmt.ofSource, bind_eq_ok] at h
    obtain ⟨g, hg, ⟨⟩⟩ := h
    exact binds_target hg
  | display span factor response =>
    cases response with
    | none => cases h
    | some e =>
      simp only [Stmt.ofSource, bind_eq_ok] at h
      obtain ⟨v, hv, ⟨⟩⟩ := h
      rw [Option.toList_some, Stmt.allGlobalIds, Stmt.allGlobalIds, List.append_nil]
      exact binds_expr hv
  | select span cases other =>
    simp only [Stmt.ofSource, bind_eq_ok] at h
    obtain ⟨cases', hcases, other', hother, ⟨⟩⟩ := h
    rw [Option.toList_some, Stmt.allGlobalIds, Stmt.allGlobalIds, List.append_nil]
    exact List.rel_append (binds_cases cases hcases) (binds_other other hother)
  | loop span init limit step down body =>
    simp only [Stmt.ofSource, bind_eq_ok] at h
    obtain ⟨⟨target, first⟩, hstart, g, hg, low, hlow, high, hhigh, body', hbody, ⟨⟩⟩ := h
    obtain ⟨-, -, place, rfl⟩ := loopStart_eq_ok.mp hstart
    rw [Option.toList_some, Stmt.allGlobalIds, Stmt.allGlobalIds, List.append_nil,
      Source.Stmt.references, Source.Expr.references, List.append_assoc]
    apply List.rel_append (binds_target hg)
    apply List.rel_append (binds_expr hlow)
    apply List.rel_append (binds_expr hhigh)
    exact binds_stmts body hbody
  | _ => cases h

theorem binds_stmts (ts : List Source.Stmt) {ts' : List Stmt} (h : Stmt.ofSources s ts = .ok ts') :
    List.Forall₂ s.Binds (Source.Stmt.allReferences ts) (Stmt.allGlobalIds ts') := by
  cases ts with
  | nil =>
    cases h
    exact .nil
  | cons t ts =>
    simp only [Stmt.ofSources, bind_eq_ok] at h
    obtain ⟨o, ho, rest, hrest, ⟨⟩⟩ := h
    rw [Stmt.allGlobalIds_append]
    exact List.rel_append (binds_stmt t ho) (binds_stmts ts hrest)

theorem binds_cases (cases : List (Source.Expr × List Source.Stmt))
    {cases' : List (Expr × List Stmt)} (h : Stmt.ofCases s cases = .ok cases') :
    List.Forall₂ s.Binds (Source.Stmt.caseReferences cases) (Stmt.caseGlobalIds cases') := by
  match cases with
  | [] =>
    cases h
    exact .nil
  | (condition, body) :: cases =>
    simp only [Stmt.ofCases, bind_eq_ok] at h
    obtain ⟨condition', hcondition, body', hbody, rest, hrest, ⟨⟩⟩ := h
    apply List.rel_append (binds_expr hcondition)
    apply List.rel_append (binds_stmts body hbody)
    exact binds_cases cases hrest

theorem binds_other (other : Option (List Source.Stmt)) {other' : Option (List Stmt)}
    (h : Stmt.ofOther s other = .ok other') :
    List.Forall₂ s.Binds (Source.Stmt.otherReferences other) (Stmt.defaultGlobalIds other') := by
  cases other with
  | none =>
    cases h
    exact .nil
  | some body =>
    simp only [Stmt.ofOther, bind_eq_ok] at h
    obtain ⟨body', hbody, ⟨⟩⟩ := h
    exact binds_stmts body hbody

end

/-- The reference is bound to an identity, and the global is the one made of the declaration that
the unit has for it. The name in the reference does not matter. -/
def Denotes (u : CompilationUnit) (p : Program) (r : Reference DataId) (g : GlobalId) : Prop :=
  ∃ id d x, r.referred = some id ∧ u.declaration? id = some d ∧
    (firsts (·.id) u.declarations)[g.index]? = some d ∧ p.global? g = some x ∧
    GlobalOf (unitScope u) d x

theorem ProgramOf.denotes (h : ProgramOf u p) {r : Reference DataId} {g : GlobalId}
    (hr : (unitScope u).Binds r g) : Denotes u p r g := by
  obtain ⟨id, hid, hg⟩ := hr
  obtain ⟨i, d, hd, rfl, rfl⟩ := lookup_unitScope.mp hg
  obtain ⟨x, hx, hglobal⟩ := getElem?_of_forall₂ h.forall₂_globals hd
  exact ⟨d.id, d, x, hid, find?_of_mem_firsts (List.mem_of_getElem? hd), hd, hx, hglobal⟩

theorem ProgramOf.denotes_all (h : ProgramOf u p) {rs : List (Reference DataId)}
    {gs : List GlobalId} (hrs : List.Forall₂ (unitScope u).Binds rs gs) :
    List.Forall₂ (Denotes u p) rs gs :=
  hrs.imp fun _ _ => h.denotes

/-- The references of a unit and the globals of a program correspond one by one, wherever something
of the unit is lowered. -/
structure ReferencesDenote (u : CompilationUnit) (p : Program) : Prop where
  initials : List.Forall₂ (fun d g => List.Forall₂ (Denotes u p)
    ((d.initial.map (·.references)).getD []) ((g.initial.map (·.globalIds)).getD []))
    (firsts (·.id) u.declarations) p.globals
  parameters : List.Forall₂ (fun r x => ∃ g y, Denotes u p r g ∧ p.global? g = some y ∧
    { name := y.name, ty := y.ty } = x) (entryReferences u) p.main.parameters
  main : List.Forall₂ (Denotes u p) (Source.Stmt.allReferences u.main)
    (Stmt.allGlobalIds p.main.body)
  /-- Also of a subroutine whose statements give way to those of a later one. -/
  subroutines : ∀ x ∈ u.subroutines, ∃ body, Stmt.ofSources (unitScope u) x.stmts = .ok body ∧
    List.Forall₂ (Denotes u p) (Source.Stmt.allReferences x.stmts) (Stmt.allGlobalIds body)
  functions : ∀ f ∈ p.functions, ∃ x ∈ u.subroutines,
    Stmt.ofSources (unitScope u) x.stmts = .ok f.body

/-- A unit that lists two identities twice, and refers to one of them by another name. -/
def twice : CompilationUnit :=
  let number : Reference DataId := ⟨"ALIAS", some ⟨1⟩⟩
  { data := [{ id := ⟨1⟩, name := "NBR", ty := .number 8 0, initial := some (.int none 7) }]
    inStatement := [
      { id := ⟨1⟩, name := "AGAIN", ty := .timestamp },
      { id := ⟨2⟩, name := "COUNT", ty := .number 3 0 }]
    subroutines := [
      { id := ⟨3⟩, name := "FIRST", stmts := [.display none none (some (.string none "one"))] },
      { id := ⟨3⟩, name := "SECOND", stmts := [.display none none (some (.data none number))] }]
    main := [.execute none ⟨"SECOND", some ⟨3⟩⟩, .clear none (.data none number)]
    entry := some { parameters := [number], isEntry := true } }

/-- The program of a unit has one function for every identity of a subroutine, in the order in
which these appear first. It has the name of the first subroutine with the identity, and the
statements of the last one. So all of it is taken from one subroutine exactly if both are lowered
to the same statements. -/
theorem functions_of_identities (name : String) (u : CompilationUnit)
    (h : Program.ofSource name u = .ok p) :
    List.Forall₂ (fun id f => ∃ first last, u.subroutine? id = some first ∧
        u.lastSubroutine? id = some last ∧ FunctionOf (unitScope u) first last f)
      (u.subroutines.map (·.id)).eraseDups p.functions ∧
    (List.Forall₂ (fun id f => ∃ x, u.subroutine? id = some x ∧ FunctionOf (unitScope u) x x f)
        (u.subroutines.map (·.id)).eraseDups p.functions ↔
      ∀ id, u.Lists id →
        (u.subroutine? id).map (fun x => Stmt.ofSources (unitScope u) x.stmts) =
          (u.lastSubroutine? id).map fun x => Stmt.ofSources (unitScope u) x.stmts) := by
  have hfunctions : List.Forall₂ (fun id f => ∃ first last, u.subroutine? id = some first ∧
      u.lastSubroutine? id = some last ∧ FunctionOf (unitScope u) first last f)
      (u.subroutines.map (·.id)).eraseDups p.functions := by
    rw [← map_key_firsts, List.forall₂_map_left_iff]
    refine (programOf_ofSource h).forall₂_functions.imp fun x f hf => ?_
    obtain ⟨last, hx, hlast, hfunction⟩ := hf
    exact ⟨x, last, hx, hlast, hfunction⟩
  refine ⟨hfunctions, ?_⟩
  rw [forall₂_iff_forall_mem ?_ hfunctions]
  · simp only [List.mem_eraseDups]
    rfl
  · intro id f hf
    obtain ⟨first, last, hfirst, hlast, hfunction⟩ := hf
    rw [hfirst, hlast, Option.map_some, Option.map_some, Option.some.injEq, hfunction.body]
    constructor
    · intro hx
      obtain ⟨x, hx, hwhole⟩ := hx
      obtain rfl : first = x := Option.some.inj hx
      exact hwhole.body
    · intro hsame
      exact ⟨first, rfl, hfunction.name, hfunction.parameters, hsame⟩

theorem functions_of_twice : ∃ p, Program.ofSource "Twice" twice = .ok p ∧
    List.Forall₂ (fun id f => ∃ first last, twice.subroutine? id = some first ∧
        twice.lastSubroutine? id = some last ∧ FunctionOf (unitScope twice) first last f)
      [⟨3⟩] p.functions ∧ p.functions.map (·.name) = ["FIRST"] := by
  refine ⟨_, rfl, ?_, rfl⟩
  exact (functions_of_identities "Twice" twice rfl).1

/- The only function is named after the first subroutine and prints what the second prints. -/
theorem function_of_two_subroutines : ∃ p, Program.ofSource "Twice" twice = .ok p ∧
    ¬ List.Forall₂ (fun id f => ∃ x, twice.subroutine? id = some x ∧
        FunctionOf (unitScope twice) x x f)
      (twice.subroutines.map (·.id)).eraseDups p.functions := by
  refine ⟨_, rfl, ?_⟩
  intro h
  cases h with
  | cons hfirst _ =>
    obtain ⟨x, hx, hwhole⟩ := hfirst
    cases hx
    cases hwhole.body

theorem ProgramOf.denotes_initial (h : ProgramOf u p) {d : DataDefinition} {g : Global}
    (hg : GlobalOf (unitScope u) d g) : List.Forall₂ (Denotes u p)
      ((d.initial.map (·.references)).getD []) ((g.initial.map (·.globalIds)).getD []) := by
  have hinitial := optionMapM_eq_ok.mp hg.initial
  generalize d.initial = o, g.initial = o' at hinitial
  cases hinitial with
  | none => exact .nil
  | some hv => exact h.denotes_all (binds_expr hv)

theorem ProgramOf.denotes_parameter (h : ProgramOf u p) {r : Reference DataId} {x : Parameter}
    (hx : parameterOf (unitScope u) p r = .ok x) : ∃ g y, Denotes u p r g ∧ p.global? g = some y ∧
      { name := y.name, ty := y.ty } = x := by
  obtain ⟨g, y, hg, hy, hxy⟩ := parameterOf_eq_ok.mp hx
  exact ⟨g, y, h.denotes (Scope.global_eq_ok.mp hg), hy, hxy⟩

theorem referencesDenote_ofSource (h : Program.ofSource name u = .ok p) : ReferencesDenote u p := by
  have hp := programOf_ofSource h
  obtain ⟨-, -, -, -, hbodies⟩ := (exists_ofSource name u).mp ⟨p, h⟩
  refine ⟨?_, ?_, ?_, ?_, ?_⟩
  · exact hp.forall₂_globals.imp fun d g => hp.denotes_initial
  · exact hp.parameters.imp fun r x => hp.denotes_parameter
  · exact hp.denotes_all (binds_stmts u.main hp.main)
  · intro x hx
    obtain ⟨body, hbody⟩ := hbodies x hx
    exact ⟨body, hbody, hp.denotes_all (binds_stmts x.stmts hbody)⟩
  · intro f hf
    obtain ⟨x, -, last, -, hlast, hfunction⟩ := exists_of_forall₂_right hp.forall₂_functions hf
    exact ⟨last, List.mem_reverse.mp (List.mem_of_find?_eq_some hlast), hfunction.body⟩

/-- The globals of the program of a unit are, in order, those of the declarations that are the
first with their identity: they have the name, the type and the lowered initial value of the
declaration, which is none in a statement. Every reference that is lowered stands for the global
of the declaration that the unit has for its identity. -/
theorem globals_of_identities (name : String) (u : CompilationUnit)
    (h : Program.ofSource name u = .ok p) :
    List.Forall₂ (GlobalOf (unitScope u)) (firsts (·.id) u.declarations) p.globals ∧
    (∀ (i : Nat) (d : InStatementDefinition) (g : Global),
      (firsts (·.id) u.declarations)[i]? = some d.toDefinition → p.globals[i]? = some g →
        g.initial = none) ∧
    ReferencesDenote u p := by
  have hglobals := (programOf_ofSource h).forall₂_globals
  refine ⟨hglobals, ?_, referencesDenote_ofSource h⟩
  intro i d g hd hg
  obtain ⟨g', hg', hmade⟩ := getElem?_of_forall₂ hglobals hd
  obtain rfl : g = g' := Option.some.inj (hg.symm.trans hg')
  have hnone : Except.ok none = Except.ok g.initial := hmade.initial
  exact (Except.ok.inj hnone).symm

theorem globals_of_twice : ∃ p, Program.ofSource "Twice" twice = .ok p ∧
    List.Forall₂ (GlobalOf (unitScope twice)) (firsts (·.id) twice.declarations) p.globals ∧
    p.globals.map (·.name) = ["NBR", "COUNT"] ∧ ReferencesDenote twice p := by
  obtain ⟨hglobals, -, hdenote⟩ := globals_of_identities "Twice" twice rfl
  exact ⟨_, rfl, hglobals, rfl, hdenote⟩

end RpgLowering.Core
