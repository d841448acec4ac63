import RpgLowering.Proofs.CoreRun
import RpgLowering.Proofs.Members
import RpgLowering.Proofs.SourceRun

/-! The program of a unit does what the unit does. Data is found by identity on one side and by
index on the other; the index of an identity is its place among the first declarations, so stores
correspond through these places all along a run. -/
namespace RpgLowering.Core
open Execution
open RpgLowering.Source (CompilationUnit DataDefinition DataId Reference Subroutine SubroutineId)
variable {V : Type} {O : Operations V} {u : CompilationUnit} {p : Program}

/-- The global at the place of a first declaration has the value of the declared data. -/
def Corresponds (u : CompilationUnit) (σ : Source.Store V) (τ : Store V) : Prop :=
  ∀ (i : Nat) (d : DataDefinition), (firsts (·.id) u.declarations)[i]? = some d → τ ⟨i⟩ = σ d.id

theorem Corresponds.read {σ : Source.Store V} {τ : Store V} (h : Corresponds u σ τ) {id : DataId}
    {g : GlobalId} (hg : (unitScope u).globals.lookup id = some g) : τ g = σ id := by
  obtain ⟨i, d, hd, rfl, rfl⟩ := lookup_unitScope.mp hg
  exact h i d hd

/- Two places have different identities, so a change of one does not show at the other. -/
theorem Corresponds.update {σ : Source.Store V} {τ : Store V} (h : Corresponds u σ τ) {id : DataId}
    {g : GlobalId} (hg : (unitScope u).globals.lookup id = some g) (v : V) :
    Corresponds u (Function.update σ id v) (Function.update τ g v) := by
  obtain ⟨i, d, hd, rfl, rfl⟩ := lookup_unitScope.mp hg
  intro j e he
  by_cases hij : j = i
  · subst hij
    obtain rfl : e = d := Option.some.inj (he.symm.trans hd)
    rw [Function.update_self, Function.update_self]
  · have hid : e.id ≠ d.id := by
      intro hsame
      exact hij (index_eq_of_key_eq (nodup_keys_firsts _ _) he hd hsame)
    have hindex : (⟨j⟩ : GlobalId) ≠ ⟨i⟩ := by
      intro hsame
      exact hij (congrArg GlobalId.index hsame)
    rw [Function.update_of_ne hid, Function.update_of_ne hindex, h j e he]

theorem value_ofSource {σ : Source.Store V} {τ : Store V} (hr : Corresponds u σ τ)
    {e : Source.Expr} {e' : Expr} (h : Expr.ofSource (unitScope u) e = .ok e') :
    e.value O u σ = e'.value O τ := by
  induction e generalizing e' with
  | int | real | string =>
    cases h
    rfl
  | boolean | assign => cases h
  | data span r =>
    simp only [Expr.ofSource, bind_eq_ok] at h
    obtain ⟨g, hg, ⟨⟩⟩ := h
    obtain ⟨id, hid, hlookup⟩ := Scope.global_eq_ok.mp hg
    rw [Source.Expr.value, hid, Option.map_some, Expr.value, hr.read hlookup]
  | binary span op left right ihl ihr =>
    cases op with
    | plus =>
      simp only [Expr.ofSource, bind_eq_ok] at h
      obtain ⟨l, hl, r, hr', ⟨⟩⟩ := h
      rw [Source.Expr.value, ihl hl, ihr hr', isText, show (unitScope u).unit = u from rfl]
      cases left.staticType u with
      | error _ => rfl
      | ok t => cases ht : t.isString <;> simp [ht, Expr.value]
    | equality =>
      simp only [Expr.ofSource, bind_eq_ok] at h
      obtain ⟨l, hl, r, hr', ⟨⟩⟩ := h
      rw [Source.Expr.value, Expr.value, ihl hl, ihr hr']
    | _ => cases h
  | unary span op e ih =>
    cases op with
    | char =>
      simp only [Expr.ofSource, bind_eq_ok] at h
      obtain ⟨v, hv, ⟨⟩⟩ := h
      rw [Source.Expr.value, Expr.value, ih hv]
    | _ => cases h
  | dec span value digits places ih =>
    simp only [Expr.ofSource, bind_eq_ok] at h
    obtain ⟨v, hv, ⟨⟩⟩ := h
    rw [Source.Expr.value, Expr.value, ih hv]

/-- An item of data and its global take the same value. -/
theorem put_ofSource {id : DataId} {g : GlobalId}
    (hg : (unitScope u).globals.lookup id = some g) {value : Source.Store V → Option V}
    {value' : Store V → Option V} (h : ∀ σ τ, Corresponds u σ τ → value σ = value' τ) :
    Simulates (V := V) (Corresponds u) (Source.put id value) (put g value') := by
  refine Simulates.update fun σ τ hr => ?_
  rw [h σ τ hr]
  cases value' τ with
  | none => exact .none
  | some v => exact .some (hr.update hg v)

theorem onItem_eq {target : Source.Expr} {g : GlobalId}
    (h : targetOf (unitScope u) target = .ok g) :
    ∃ id, (unitScope u).globals.lookup id = some g ∧
      ∀ act : DataId → Action (Source.Store V) V, Source.onItem target act = act id := by
  cases target with
  | data span r =>
    obtain ⟨id, hr, hid⟩ := Scope.global_eq_ok.mp h
    exact ⟨id, hid, fun act => by simp only [Source.onItem, Source.Expr.item?, hr]⟩
  | _ => cases h

theorem zero_ofSource (h : ProgramOf u p) {id : DataId} {g : GlobalId}
    (hg : (unitScope u).globals.lookup id = some g) :
    u.zero? O id = (p.typeOf? g).map O.values.zero := by
  obtain ⟨d, x, hd, _, hx, _, htype⟩ := h.declaration hg
  simp [CompilationUnit.zero?, hd, htype, Program.typeOf?, hx]

theorem isUnitStep_of_eq {step : Option Source.Expr} (h : ∀ e ∈ step, ∃ place, e = .int place 1) :
    Source.isUnitStep step = true := by
  cases step with
  | none => rfl
  | some e =>
    obtain ⟨place, rfl⟩ := h e rfl
    rfl

section
variable {call : SubroutineId → Action (Source.Store V) V} {call' : FunctionId → Action (Store V) V}
  {bound : Nat}

/-- What one statement needs: the program of the unit, and calls that are simulated already. -/
structure Linked (u : CompilationUnit) (p : Program)
    (call : SubroutineId → Action (Source.Store V) V) (call' : FunctionId → Action (Store V) V) :
    Prop where
  program : ProgramOf u p
  calls : ∀ id f, (unitScope u).functions.lookup id = some f →
    Simulates (Corresponds u) (call id) (call' f)

mutual

/- A statement that is dropped does nothing, which is what running nothing does. -/
theorem run_ofSource (hl : Linked u p call call') (t : Source.Stmt) {o : Option Stmt}
    (h : Stmt.ofSource (unitScope u) t = .ok o) :
    Simulates (Corresponds u) (t.run O u call bound)
      (Stmt.runAll (meaningOf O) p call' bound o.toList) := by
  cases t with
  | plist | set =>
    cases h
    exact Simulates.skip
  | eval span target value =>
    simp only [Stmt.ofSource, bind_eq_ok] at h
    obtain ⟨g, hg, e, he, ⟨⟩⟩ := h
    obtain ⟨id, hid, htarget⟩ := onItem_eq hg
    rw [Option.toList_some, Stmt.runAll_singleton, Source.Stmt.run, htarget]
    exact put_ofSource hid fun σ τ hr => value_ofSource hr he
  | execute span r =>
    simp only [Stmt.ofSource, bind_eq_ok] at h
    obtain ⟨f, hf, ⟨⟩⟩ := h
    obtain ⟨id, hr, hid⟩ := Scope.function_eq_ok.mp hf
    rw [Option.toList_some, Stmt.runAll_singleton, Source.Stmt.run, hr]
    exact hl.calls id f hid
  | clear span target =>
    simp only [Stmt.ofSource, bind_eq_ok] at h
    obtain ⟨g, hg, ⟨⟩⟩ := h
    obtain ⟨id, hid, htarget⟩ := onItem_eq hg
    rw [Option.toList_some, Stmt.runAll_singleton, Source.Stmt.run, htarget]
    exact put_ofSource hid fun σ τ hr => zero_ofSource hl.program hid
  | display span factor response =>
    cases response with
    | none => cases h
    | some e =>
      simp only [Stmt.ofSource, bind_eq_ok] at h
      obtain ⟨e', he, ⟨⟩⟩ := h
      rw [Option.toList_some, Stmt.runAll_singleton, Source.Stmt.run]
      exact Simulates.print fun σ τ hr => value_ofSource hr he
  | select span cases other =>
    simp only [Stmt.ofSource, bind_eq_ok] at h
    obtain ⟨cases', hcases, other', hother, ⟨⟩⟩ := h
    rw [Option.toList_some, Stmt.runAll_singleton, Source.Stmt.run]
    exact runCases_ofSource hl cases hcases (runOther_ofSource hl other hother)
  | loop span init limit step down body =>
    simp only [Stmt.ofSource, bind_eq_ok] at h
    obtain ⟨⟨target, first⟩, hstart, g, hg, low, hlow, high, hhigh, body', hbody, ⟨⟩⟩ := h
    obtain ⟨rfl, hstep, place, rfl⟩ := loopStart_eq_ok.mp hstart
    obtain ⟨id, hid, htarget⟩ := onItem_eq hg
    rw [Option.toList_some, Stmt.runAll_singleton, Source.Stmt.run,
      if_pos ⟨rfl, isUnitStep_of_eq hstep⟩, htarget]
    refine (put_ofSource hid fun σ τ hr => value_ofSource hr hlow).andThen
      (.whileTrue (fun σ τ hr => ?_) ((runAll_ofSource hl body hbody).andThen ?_) bound)
    · rw [value_ofSource hr hhigh, hr.read hid]
      rfl
    · refine put_ofSource hid fun σ τ hr => ?_
      rw [hr.read hid]
      rfl
  | _ => cases h

theorem runAll_ofSource (hl : Linked u p call call') (ts : List Source.Stmt) {ts' : List Stmt}
    (h : Stmt.ofSources (unitScope u) ts = .ok ts') :
    Simulates (Corresponds u) (Source.Stmt.runAll O u call bound ts)
      (Stmt.runAll (meaningOf O) p call' bound ts') := by
  cases ts with
  | nil =>
    cases h
    exact Simulates.skip
  | cons t ts =>
    simp only [Stmt.ofSources, bind_eq_ok] at h
    obtain ⟨o, ho, rest, hrest, ⟨⟩⟩ := h
    rw [Stmt.runAll_append]
    exact (run_ofSource hl t ho).andThen (runAll_ofSource hl ts hrest)

theorem runCases_ofSource (hl : Linked u p call call')
    (cases : List (Source.Expr × List Source.Stmt)) {cases' : List (Expr × List Stmt)}
    (h : Stmt.ofCases (unitScope u) cases = .ok cases') {otherwise : Action (Source.Store V) V}
    {otherwise' : Action (Store V) V}
    (hotherwise : Simulates (Corresponds u) otherwise otherwise') :
    Simulates (Corresponds u) (Source.Stmt.runCases O u call bound cases otherwise)
      (Stmt.runCases (meaningOf O) p call' bound cases' otherwise') := by
  match cases with
  | [] =>
    cases h
    exact hotherwise
  | (condition, body) :: cases =>
    simp only [Stmt.ofCases, bind_eq_ok] at h
    obtain ⟨condition', hcondition, body', hbody, rest, hrest, ⟨⟩⟩ := h
    have htest : ∀ σ τ, Corresponds u σ τ → (condition.value O u σ >>= O.holds) =
        (meaningOf O).value condition' τ >>= O.holds := by
      intro σ τ hr
      rw [value_ofSource hr hcondition]
      rfl
    exact Simulates.choose htest (runAll_ofSource hl body hbody)
      (runCases_ofSource hl cases hrest hotherwise)

theorem runOther_ofSource (hl : Linked u p call call') (other : Option (List Source.Stmt))
    {other' : Option (List Stmt)} (h : Stmt.ofOther (unitScope u) other = .ok other') :
    Simulates (Corresponds u) (Source.Stmt.runOther O u call bound other)
      (Stmt.runDefault (meaningOf O) p call' bound other') := by
  cases other with
  | none =>
    cases h
    exact Simulates.skip
  | some body =>
    simp only [Stmt.ofOther, bind_eq_ok] at h
    obtain ⟨body', hbody, ⟨⟩⟩ := h
    exact runAll_ofSource hl body hbody

end

end

theorem call_ofSource (hids : (u.subroutines.map (·.id)).Nodup) (hp : ProgramOf u p) (n : Nat)
    (id : SubroutineId) (f : FunctionId) (hf : (unitScope u).functions.lookup id = some f) :
    Simulates (Corresponds u) (u.call O n id) (p.call (meaningOf O) n f) := by
  -- on the bound and not on the statements: a subroutine may call itself
  induction n generalizing id f with
  | zero => exact Simulates.stop .exhausted
  | succ n ih =>
    obtain ⟨i, x, hx, rfl, rfl⟩ := lookup_functions_unitScope.mp hf
    obtain ⟨last, fn, hlast, hfn, hfunction⟩ := hp.functionOf hx
    rw [lastSubroutine?_of_nodup hids] at hlast
    simp only [CompilationUnit.call, hlast, Program.call, Program.function?, hfn]
    exact runAll_ofSource ⟨hp, ih⟩ last.stmts hfunction.body

theorem receive_ofSource (hp : ProgramOf u p) (arguments : String → V)
    {rs : List (Reference DataId)} {xs : List Parameter}
    (h : List.Forall₂ (fun r x => parameterOf (unitScope u) p r = .ok x) rs xs) :
    Simulates (Corresponds u) (u.receive arguments rs) (p.receive arguments xs) := by
  induction h with
  | nil => exact Simulates.skip
  | cons hr _ ih =>
    obtain ⟨g, x, hg, hx, rfl⟩ := parameterOf_eq_ok.mp hr
    obtain ⟨id, hid, hlookup⟩ := Scope.global_eq_ok.mp hg
    obtain ⟨d, y, hd, rfl, hy, hname, _⟩ := hp.declaration hlookup
    obtain rfl : x = y := Option.some.inj (hx.symm.trans hy)
    have hfind : p.findGlobal? x.name = some g := by
      rw [Program.findGlobal?, findIdx?_key hp.globals.nodup_names hx]
      rfl
    refine Simulates.andThen (Simulates.update fun σ τ hr => ?_) ih
    simp only [hid, hd, hfind, ← hname, Option.bind_eq_bind, Option.bind_some, Option.map_some]
    exact .some (hr.update hlookup _)

/-- The program of a unit prints what the unit prints, ends as it ends, also when the bound is
reached, and leaves the value of all data in its global; on arguments as well as without. -/
theorem program_run_matches_unit_run {name : String} (h : Program.ofSource name u = .ok p)
    (hids : (u.subroutines.map (·.id)).Nodup) (O : Operations V) (arguments : String → V)
    (bound : Nat) (σ : Source.Store V) (τ : Store V) (hr : Corresponds u σ τ) :
    (u.runMain O bound ⟨σ, []⟩).Matches (Corresponds u)
      (p.runBody (meaningOf O) bound ⟨τ, []⟩) ∧
    (u.run O arguments bound ⟨σ, []⟩).Matches (Corresponds u)
      (p.run (meaningOf O) arguments bound ⟨τ, []⟩) := by
  have hp := programOf_ofSource h
  have hmain : Simulates (Corresponds u) (u.runMain O bound) (p.runBody (meaningOf O) bound) :=
    runAll_ofSource ⟨hp, call_ofSource hids hp bound⟩ u.main hp.main
  have hrun : Simulates (Corresponds u) (u.run O arguments bound)
      (p.run (meaningOf O) arguments bound) :=
    (receive_ofSource hp arguments hp.parameters).andThen hmain
  exact ⟨hmain ⟨σ, []⟩ ⟨τ, []⟩ hr rfl, hrun ⟨σ, []⟩ ⟨τ, []⟩ hr rfl⟩

/- The third round finds the total cleared by the second. -/
theorem tally_run_matches : ∃ p, Program.ofSource "Tally" tally = .ok p ∧
    (tally.subroutines.map (·.id)).Nodup ∧
    (tally.runMain lengths 4 ⟨fun _ => 0, []⟩).Matches (Corresponds tally)
      (p.runBody (meaningOf lengths) 4 ⟨fun _ => 0, []⟩) ∧
    (tally.run lengths (fun _ => 5) 4 ⟨fun _ => 0, []⟩).Matches (Corresponds tally)
      (p.run (meaningOf lengths) (fun _ => 5) 4 ⟨fun _ => 0, []⟩) ∧
    (tally.run lengths (fun _ => 5) 4 ⟨fun _ => 0, []⟩).state.printed = [6, 0, 3] := by
  have hids : (tally.subroutines.map (·.id)).Nodup := by decide
  obtain ⟨hmain, hrun⟩ := program_run_matches_unit_run (u := tally) (p := tallyProgram) rfl hids
    lengths (fun _ => 5) 4 (fun _ => 0) (fun _ => 0) fun _ _ _ => rfl
  exact ⟨tallyProgram, rfl, hids, hmain, hrun, by decide⟩

end RpgLowering.Core
