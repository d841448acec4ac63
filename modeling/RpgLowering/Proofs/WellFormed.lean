import RpgLowering.Proofs.InRange
import RpgLowering.Proofs.Members

/-! The program of a unit is well formed, so a class can be made of it. -/
namespace RpgLowering.Core
open RpgLowering.Source (CompilationUnit DataDefinition DataId Reference Subroutine SubroutineId)
variable {u : CompilationUnit} {s : Scope} {n m : Nat}

/-- What the declared identities stand for exists. -/
structure Scope.Within (s : Scope) (n m : Nat) : Prop where
  globals : ∀ id g, s.globals.lookup id = some g → g.index < n
  functions : ∀ id f, s.functions.lookup id = some f → f.index < m

theorem Scope.Within.global (hs : s.Within n m) {r : Reference DataId} {span : Option Span}
    {g : GlobalId} (h : s.global r span = .ok g) : g.index < n := by
  obtain ⟨id, _, hg⟩ := Scope.global_eq_ok.mp h
  exact hs.globals id g hg

theorem Scope.Within.function (hs : s.Within n m) {r : Reference SubroutineId} {span : Option Span}
    {f : FunctionId} (h : s.function r span = .ok f) : f.index < m := by
  obtain ⟨id, _, hf⟩ := Scope.function_eq_ok.mp h
  exact hs.functions id f hf

theorem Scope.Within.target (hs : s.Within n m) {e : Source.Expr} {g : GlobalId}
    (h : targetOf s e = .ok g) : g.index < n := by
  cases e with
  | data span r => exact hs.global h
  | _ => cases h

theorem inRange_exprOfSource (hs : s.Within n m) {e : Source.Expr} {e' : Expr}
    (h : Expr.ofSource s e = .ok e') : e'.InRange n := by
  induction e generalizing e' with
  | int | real | string =>
    cases h
    trivial
  | boolean | assign => cases h
  | data span r =>
    simp only [Expr.ofSource, bind_eq_ok] at h
    obtain ⟨g, hg, ⟨⟩⟩ := h
    exact hs.global hg
  | binary span op left right ihl ihr =>
    cases op with
    | plus =>
      simp only [Expr.ofSource, bind_eq_ok] at h
      obtain ⟨l, hl, r, hr, ⟨⟩⟩ := h
      split <;> exact ⟨ihl hl, ihr hr⟩
    | equality =>
      simp only [Expr.ofSource, bind_eq_ok] at h
      obtain ⟨l, hl, r, hr, ⟨⟩⟩ := h
      exact ⟨ihl hl, ihr hr⟩
    | _ => cases h
  | unary span op e ih =>
    cases op with
    | char =>
      simp only [Expr.ofSource, bind_eq_ok] at h
      obtain ⟨v, hv, ⟨⟩⟩ := h
      have hin := ih hv
      exact hin
    | _ => cases h
  | dec span value digits places ih =>
    simp only [Expr.ofSource, bind_eq_ok] at h
    obtain ⟨v, hv, ⟨⟩⟩ := h
    have hin := ih hv
    exact hin

mutual

theorem inRange_stmtOfSource (hs : s.Within n m) (t : Source.Stmt) {o : Option Stmt}
    (h : Stmt.ofSource s t = .ok o) : ∀ t' ∈ o, t'.InRange n m := by
  cases t with
  | plist | set =>
    cases h
    exact nofun
  | eval span target value =>
    simp only [Stmt.ofSource, bind_eq_ok] at h
    obtain ⟨g, hg, v, hv, ⟨⟩⟩ := h
    rintro _ ⟨⟩
    exact .assign (hs.target hg) (inRange_exprOfSource hs hv)
  | execute span r =>
    simp only [Stmt.ofSource, bind_eq_ok] at h
    obtain ⟨f, hf, ⟨⟩⟩ := h
    rintro _ ⟨⟩
    exact .call (hs.function hf)
  | clear span target =>
    simp only [Stmt.ofSource, bind_eq_ok] at h
    obtain ⟨g, hg, ⟨⟩⟩ := h
    rintro _ ⟨⟩
    exact .reset (hs.target hg)
  | display span factor response =>
    cases response with
    | none => cases h
    | some e =>
      simp only [Stmt.ofSource, bind_eq_ok] at h
      obtain ⟨v, hv, ⟨⟩⟩ := h
      rintro _ ⟨⟩
      exact .print (inRange_exprOfSource hs hv)
  | select span cases other =>
    simp only [Stmt.ofSource, bind_eq_ok] at h
    obtain ⟨cases', hcases, other', hother, ⟨⟩⟩ := h
    rintro _ ⟨⟩
    obtain ⟨hconditions, hbodies⟩ := inRange_casesOfSource hs cases hcases
    exact .switch hconditions hbodies (inRange_otherOfSource hs other hother)
  | loop span init limit step down body =>
    simp only [Stmt.ofSource, bind_eq_ok] at h
    obtain ⟨⟨target, first⟩, _, g, hg, low, hlow, high, hhigh, body', hbody, ⟨⟩⟩ := h
    rintro _ ⟨⟩
    exact .loop (hs.target hg) (inRange_exprOfSource hs hlow) (inRange_exprOfSource hs hhigh)
      (inRange_stmtsOfSource hs body hbody)
  | _ => cases h

theorem inRange_stmtsOfSource (hs : s.Within n m) (ts : List Source.Stmt) {ts' : List Stmt}
    (h : Stmt.ofSources s ts = .ok ts') : ∀ t' ∈ ts', t'.InRange n m := by
  cases ts with
  | nil =>
    cases h
    exact nofun
  | cons t ts =>
    simp only [Stmt.ofSources, bind_eq_ok] at h
    obtain ⟨o, ho, rest, hrest, ⟨⟩⟩ := h
    intro t' ht'
    rcases List.mem_append.mp ht' with hfirst | htail
    · exact inRange_stmtOfSource hs t ho t' (Option.mem_toList.mp hfirst)
    · exact inRange_stmtsOfSource hs ts hrest t' htail

theorem inRange_casesOfSource (hs : s.Within n m) (cases : List (Source.Expr × List Source.Stmt))
    {cases' : List (Expr × List Stmt)} (h : Stmt.ofCases s cases = .ok cases') :
    (∀ c ∈ cases', c.1.InRange n) ∧ ∀ c ∈ cases', ∀ t ∈ c.2, t.InRange n m := by
  match cases with
  | [] =>
    cases h
    exact ⟨nofun, nofun⟩
  | (condition, body) :: cases =>
    simp only [Stmt.ofCases, bind_eq_ok] at h
    obtain ⟨condition', hcondition, body', hbody, rest, hrest, ⟨⟩⟩ := h
    obtain ⟨hconditions, hbodies⟩ := inRange_casesOfSource hs cases hrest
    simp only [List.forall_mem_cons]
    exact ⟨⟨inRange_exprOfSource hs hcondition, hconditions⟩,
      inRange_stmtsOfSource hs body hbody, hbodies⟩

theorem inRange_otherOfSource (hs : s.Within n m) (other : Option (List Source.Stmt))
    {other' : Option (List Stmt)} (h : Stmt.ofOther s other = .ok other') :
    ∀ body ∈ other', ∀ t ∈ body, t.InRange n m := by
  cases other with
  | none =>
    cases h
    exact nofun
  | some body =>
    simp only [Stmt.ofOther, bind_eq_ok] at h
    obtain ⟨body', hbody, ⟨⟩⟩ := h
    rintro _ ⟨⟩
    exact inRange_stmtsOfSource hs body hbody

end

/-- A program that refers to nothing it lacks, with names that tell its members apart. -/
structure Program.WellFormed (p : Program) : Prop where
  /-- An initial value refers to its own global at most. -/
  initials : ∀ (i : Nat) (g : Global), p.globals[i]? = some g → ∀ e ∈ g.initial, e.InRange (i + 1)
  main : ∀ t ∈ p.main.body, t.InRange p.globals.length p.functions.length
  functions : ∀ f ∈ p.functions, ∀ t ∈ f.body, t.InRange p.globals.length p.functions.length
  globalNames : (p.globals.map (·.name)).Nodup
  functionNames : (p.functions.map (·.name)).Nodup
  mainParameters : ∀ x ∈ p.main.parameters, ∃ g ∈ p.globals, g.name = x.name ∧ g.ty = x.ty
  functionParameters : ∀ f ∈ p.functions, f.parameters = []

theorem Globals.within {ds : List DataDefinition} {gs : List Global} (h : Globals u ds gs)
    (xs : List Subroutine) : (scopeOf u ds xs).Within gs.length (firsts (·.id) xs).length where
  globals _ _ hg := h.lookup_lt hg
  functions id f hf := by
    obtain ⟨i, x, hx, _, rfl⟩ := (lookup_numbered_eq_some Subroutine.id FunctionId.mk xs id f).mp hf
    exact (List.getElem?_eq_some_iff.mp hx).1

/- When the value of a global is lowered, its own identity is the last one declared. -/
theorem Globals.initials {ds : List DataDefinition} {gs : List Global} (h : Globals u ds gs)
    {i : Nat} {g : Global} (hg : gs[i]? = some g) : ∀ e ∈ g.initial, e.InRange (i + 1) := by
  induction h with
  | nil => simp at hg
  | again _ _ ih => exact ih hg
  | @first ds gs d last hgs hid hlast hname ih =>
    rcases Nat.lt_trichotomy i gs.length with hi | rfl | hi
    · rw [List.getElem?_append_left hi] at hg
      exact ih hg
    · rw [List.getElem?_concat_length] at hg
      obtain rfl := Option.some.inj hg
      have hwithin := (Globals.first hgs hid hlast hname).within []
      rw [List.length_append, List.length_singleton] at hwithin
      intro e he
      have hinitial := optionMapM_eq_ok.mp hlast.initial
      rw [Option.mem_def.mp he] at hinitial
      generalize d.initial = o at hinitial
      cases hinitial with
      | some hv => exact inRange_exprOfSource hwithin hv
    · have hend : (gs ++ [last]).length ≤ i := by
        rw [List.length_append, List.length_singleton]
        omega
      rw [List.getElem?_eq_none hend] at hg
      cases hg

theorem ProgramOf.names_functions {p : Program} (h : ProgramOf u p) :
    p.functions.map (·.name) = (firsts (·.id) u.subroutines).map (·.name) := by
  refine map_eq_of_forall₂ (fun x f hf => ?_) h.forall₂_functions
  obtain ⟨_, -, -, hfunction⟩ := hf
  exact hfunction.name

theorem wellFormed_ofSource {name : String} {p : Program} (h : Program.ofSource name u = .ok p) :
    p.WellFormed := by
  have hp := programOf_ofSource h
  have hlen : p.functions.length = (firsts (·.id) u.subroutines).length := by
    simpa using congrArg List.length hp.names_functions
  have hwithin := hp.globals.within u.subroutines
  rw [← hlen] at hwithin
  have hfunctions : ∀ f ∈ p.functions, f.parameters = [] ∧
      ∀ t ∈ f.body, t.InRange p.globals.length p.functions.length := by
    intro f hf
    obtain ⟨x, -, last, -, -, hfunction⟩ := exists_of_forall₂_right hp.forall₂_functions hf
    exact ⟨hfunction.parameters, inRange_stmtsOfSource hwithin last.stmts hfunction.body⟩
  refine ⟨fun i g => hp.globals.initials, inRange_stmtsOfSource hwithin u.main hp.main,
    fun f hf => (hfunctions f hf).2, hp.globals.nodup_names, ?_, ?_,
    fun f hf => (hfunctions f hf).1⟩
  · rw [hp.names_functions]
    exact hp.functionNames
  · intro x hx
    obtain ⟨r, _, hr⟩ := exists_of_forall₂_right hp.parameters hx
    obtain ⟨id, g, _, hg, rfl⟩ := parameterOf_eq_ok.mp hr
    exact ⟨g, List.mem_of_getElem? hg, rfl, rfl⟩

end RpgLowering.Core
