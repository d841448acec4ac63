import RpgLowering.Proofs.ClassMembers
import RpgLowering.Proofs.CoreRun
import RpgLowering.Proofs.Firsts

/-! The class of a program does what the program does. Globals are found by index on one side and
by name on the other, so the names have to be distinct; then stores correspond through the names
all along a run, for any bound and through any depth of calls. -/
namespace RpgLowering.Target
open Execution
open RpgLowering.Core (GlobalId FunctionId Program)
variable {V : Type} {D : Values V} {p : Program} {c : Class}

/-- The field of a global's name has the global's value. -/
def Corresponds (p : Program) (σ : Core.Store V) (τ : Store V) : Prop :=
  ∀ id g, p.global? id = some g → τ g.name = σ id

/-- The lowered expression has the value of the expression, wherever stores correspond. -/
def Agrees (p : Program) (c : Class) (M : Core.Meaning D) (N : Meaning V) (e : Core.Expr) : Prop :=
  ∀ e', Expr.ofCore p e = .ok e' → ∀ locals σ τ, Corresponds p σ τ →
    e'.value N c locals τ = M.value e σ

theorem Corresponds.update (hn : (p.globals.map (·.name)).Nodup) {σ : Core.Store V} {τ : Store V}
    (h : Corresponds p σ τ) {id : GlobalId} {g : Core.Global} (hg : p.global? id = some g) (v : V) :
    Corresponds p (Function.update σ id v) (Function.update τ g.name v) := by
  intro id' g' hg'
  by_cases he : id' = id
  · subst he
    have hsame : g' = g := Option.some.inj (hg'.symm.trans hg)
    rw [hsame, Function.update_self, Function.update_self]
  · have hname : g'.name ≠ g.name := by
      intro hname
      have hindex := index_eq_of_key_eq hn hg' hg hname
      cases id
      cases id'
      exact he (congrArg GlobalId.mk hindex)
    rw [Function.update_of_ne hname, Function.update_of_ne he, h id' g' hg']

theorem read_of_corresponds (hc : Class.ofCore p = .ok c) {σ : Core.Store V} {τ : Store V}
    (h : Corresponds p σ τ) {id : GlobalId} {g : Core.Global} (hg : p.global? id = some g) :
    c.read τ g.name = some (σ id) := by
  obtain ⟨f, hf⟩ := field?_of_global? hc hg
  rw [Class.read, hf, Option.map_some, h id g hg]

/-- A global and the field of its name take the same value. -/
theorem put_simulates (hc : Class.ofCore p = .ok c) (hn : (p.globals.map (·.name)).Nodup)
    {id : GlobalId} {g : Core.Global} (hg : p.global? id = some g)
    {value : Core.Store V → Option V} {value' : Store V → Option V}
    (h : ∀ σ τ, Corresponds p σ τ → value' τ = value σ) :
    Simulates (V := V) (Corresponds p) (Core.put id value)
      (.update fun τ => value' τ >>= c.write τ g.name) := by
  obtain ⟨f, hf⟩ := field?_of_global? hc hg
  refine Simulates.update fun σ τ hr => ?_
  rw [h σ τ hr]
  cases value σ with
  | none => exact .none
  | some v =>
    simp only [Option.map_some, Option.bind_eq_bind, Option.bind_some, Class.write, hf]
    exact .some (hr.update hn hg v)

section
variable {M : Core.Meaning D} {N : Meaning V} {locals : String → Option V}
  {call : FunctionId → Action (Core.Store V) V} {call' : String → Action (Store V) V} {bound : Nat}

/-- What one statement needs: the class of the program, distinct names, and calls that are
simulated already. -/
structure Linked (p : Program) (c : Class) (call : FunctionId → Action (Core.Store V) V)
    (call' : String → Action (Store V) V) : Prop where
  class_eq : Class.ofCore p = .ok c
  names : (p.globals.map (·.name)).Nodup
  calls : ∀ id f, p.function? id = some f → Simulates (Corresponds p) (call id) (call' f.name)

/-- The counter of a loop after an iteration. -/
theorem increment_simulates (hl : Linked p c call call') {id : GlobalId} {g : Core.Global}
    (hg : p.global? id = some g) :
    Simulates (V := V) (Corresponds p) (Core.put id fun σ => D.next (σ id))
      ((Expr.increment (.thisField g.name)).perform D N c locals call') := by
  have hnext : ∀ σ τ, Corresponds p σ τ → (c.read τ g.name >>= D.next) = D.next (σ id) := by
    intro σ τ hr
    rw [read_of_corresponds hl.class_eq hr hg, Option.bind_eq_bind, Option.bind_some]
  exact put_simulates hl.class_eq hl.names hg hnext

/-- The test of a loop. -/
theorem test_atMost (hl : Linked p c call call') {id : GlobalId} {g : Core.Global}
    (hg : p.global? id = some g) {e : Core.Expr} {e' : Expr} (he : Expr.ofCore p e = .ok e')
    (ha : Agrees p c M N e) (σ : Core.Store V) (τ : Store V) (hr : Corresponds p σ τ) :
    M.value e σ >>= D.atMost (σ id) =
      (Expr.binary .atMost (.thisField g.name) e').test D N c locals τ := by
  have hcounter : (Expr.thisField g.name).value N c locals τ = some (σ id) :=
    read_of_corresponds hl.class_eq hr hg
  simp only [Expr.test, hcounter, ha e' he locals σ τ hr, Option.bind_eq_bind, Option.bind_some]

theorem ofCore_shape {e : Core.Expr} {e' : Expr} (he : Expr.ofCore p e = .ok e') :
    (∀ n, e' ≠ .name n) ∧ ∀ l r, e' ≠ .binary .atMost l r := by
  cases e with
  | integer | decimal | string =>
    cases he
    simp
  | global id =>
    obtain ⟨g, _, rfl⟩ := fieldOf_eq_ok.mp he
    simp [Expr.thisField]
  | parse e | format e =>
    simp only [Expr.ofCore, bind_eq_ok] at he
    obtain ⟨_, _, ⟨⟩⟩ := he
    simp
  | concat l r | sum l r =>
    simp only [Expr.ofCore, bind_eq_ok] at he
    obtain ⟨_, _, _, _, ⟨⟩⟩ := he
    simp
  | equal l r =>
    simp only [Expr.ofCore, bind_eq_ok] at he
    obtain ⟨_, _, _, _, ⟨⟩⟩ := he
    unfold equalsTest
    split <;> simp

/- A lowered expression is never an order comparison, so as a condition it has its own value. -/
theorem test_eq_value {e : Core.Expr} {e' : Expr} (he : Expr.ofCore p e = .ok e') (τ : Store V) :
    e'.test D N c locals τ = e'.value N c locals τ >>= D.holds := by
  unfold Expr.test
  split
  case h_1 l r => exact absurd rfl ((ofCore_shape he).2 l r)
  case h_2 => rfl

theorem test_ofCore {e : Core.Expr} {e' : Expr} (he : Expr.ofCore p e = .ok e')
    (ha : Agrees p c M N e) (σ : Core.Store V) (τ : Store V) (hr : Corresponds p σ τ) :
    M.value e σ >>= D.holds = e'.test D N c locals τ := by
  rw [test_eq_value he, ha e' he locals σ τ hr]

mutual

theorem run_ofCore (hl : Linked p c call call') (s : Core.Stmt) {s' : Stmt}
    (h : Stmt.ofCore p s = .ok s') (ha : ∀ e ∈ s.expressions p, Agrees p c M N e) :
    Simulates (Corresponds p) (s.run M p call bound) (s'.run D N c locals call' bound) := by
  cases s with
  | assign target value =>
    simp only [Stmt.ofCore, bind_eq_ok, fieldOf_eq_ok] at h
    obtain ⟨_, ⟨g, hg, rfl⟩, e', he', ⟨⟩⟩ := h
    rw [Core.Stmt.run, Stmt.run_assignTo]
    have hvalue := ha value (by simp [Core.Stmt.expressions]) e' he' locals
    exact put_simulates hl.class_eq hl.names hg hvalue
  | reset target =>
    simp only [Stmt.ofCore] at h
    cases ht : p.typeOf? target with
    | none => simp [ht] at h
    | some t =>
      simp only [ht, bind_eq_ok, fieldOf_eq_ok] at h
      obtain ⟨_, ⟨g, hg, rfl⟩, e', he', ⟨⟩⟩ := h
      have hz := ha t.zero (by simp [Core.Stmt.expressions, ht]) e' he' locals
      rw [Core.Stmt.run, Stmt.run_assignTo]
      refine put_simulates hl.class_eq hl.names hg fun σ τ hr => ?_
      rw [hz σ τ hr, M.value_zero, ht, Option.map_some]
  | call f =>
    simp only [Stmt.ofCore] at h
    cases hf : p.function? f with
    | none => simp [hf] at h
    | some fn =>
      simp only [hf] at h
      cases h
      exact hl.calls f fn hf
  | print value =>
    simp only [Stmt.ofCore, bind_eq_ok] at h
    obtain ⟨e', he', ⟨⟩⟩ := h
    rw [Core.Stmt.run, Stmt.run_println]
    refine Simulates.print fun σ τ hr => ?_
    exact (ha _ (by simp [Core.Stmt.expressions]) e' he' locals σ τ hr).symm
  | switch cases default? =>
    simp only [Stmt.ofCore, bind_eq_ok] at h
    obtain ⟨cases', hcases, last, hlast, ⟨⟩⟩ := h
    simp only [Core.Stmt.expressions, List.mem_append] at ha
    have hdefault := runDefault_ofCore hl default? hlast fun e he => ha e (.inr he)
    rw [Core.Stmt.run, Stmt.run_getD]
    exact runCases_ofCore hl cases hcases (fun e he => ha e (.inl he)) hdefault
  | loop counter low high body =>
    simp only [Stmt.ofCore, bind_eq_ok, fieldOf_eq_ok] at h
    obtain ⟨_, ⟨g, hg, rfl⟩, low', hlow, high', hhigh, body', hbody, ⟨⟩⟩ := h
    simp only [Core.Stmt.expressions, List.mem_cons] at ha
    have hinit := put_simulates hl.class_eq hl.names hg (ha low (.inl rfl) low' hlow locals)
    have hbody' := runAll_ofCore hl body hbody fun e he => ha e (.inr (.inr he))
    rw [Core.Stmt.run, Stmt.run_for]
    refine hinit.andThen (.whileTrue ?_ (hbody'.andThen ?_) bound)
    · exact test_atMost hl hg hhigh (ha high (.inr (.inl rfl)))
    · exact increment_simulates hl hg

theorem runAll_ofCore (hl : Linked p c call call') (ss : List Core.Stmt) {ss' : List Stmt}
    (h : Stmt.ofCores p ss = .ok ss')
    (ha : ∀ e ∈ Core.Stmt.allExpressions p ss, Agrees p c M N e) :
    Simulates (Corresponds p) (Core.Stmt.runAll M p call bound ss)
      (Stmt.runAll D N c locals call' bound ss') := by
  cases ss with
  | nil =>
    cases h
    exact Simulates.skip
  | cons s ss =>
    simp only [Stmt.ofCores, bind_eq_ok] at h
    obtain ⟨s', hs, ss', hss, ⟨⟩⟩ := h
    simp only [Core.Stmt.allExpressions, List.mem_append] at ha
    exact (run_ofCore hl s hs fun e he => ha e (.inl he)).andThen
      (runAll_ofCore hl ss hss fun e he => ha e (.inr he))

/- The chain is nested to the right, so each case has the rest of the chain as its `else`. -/
theorem runCases_ofCore (hl : Linked p c call call') (cases : List (Core.Expr × List Core.Stmt))
    {cases' : List (Expr × Stmt)} (h : Stmt.ofCases p cases = .ok cases')
    (ha : ∀ e ∈ Core.Stmt.caseExpressions p cases, Agrees p c M N e)
    {otherwise : Action (Core.Store V) V} {last : Option Stmt}
    (hlast : Simulates (Corresponds p) otherwise (Stmt.runElse D N c locals call' bound last)) :
    Simulates (Corresponds p) (Core.Stmt.runCases M p call bound cases otherwise)
      (Stmt.runElse D N c locals call' bound (chain cases' last)) := by
  match cases with
  | [] =>
    cases h
    exact hlast
  | (condition, body) :: cases =>
    simp only [Stmt.ofCases, bind_eq_ok] at h
    obtain ⟨condition', hcondition, body', hbody, cases', hcases, ⟨⟩⟩ := h
    simp only [Core.Stmt.caseExpressions, List.mem_cons, List.mem_append] at ha
    have hyes := runAll_ofCore hl body hbody fun e he => ha e (.inr (.inl he))
    have hno := runCases_ofCore hl cases hcases (fun e he => ha e (.inr (.inr he))) hlast
    exact Simulates.choose (test_ofCore hcondition (ha condition (.inl rfl))) hyes hno

theorem runDefault_ofCore (hl : Linked p c call call') (default? : Option (List Core.Stmt))
    {last : Option Stmt} (h : Stmt.ofDefault p default? = .ok last)
    (ha : ∀ e ∈ Core.Stmt.defaultExpressions p default?, Agrees p c M N e) :
    Simulates (Corresponds p) (Core.Stmt.runDefault M p call bound default?)
      (Stmt.runElse D N c locals call' bound last) := by
  cases default? with
  | none =>
    cases h
    exact Simulates.skip
  | some body =>
    simp only [Stmt.ofDefault, bind_eq_ok] at h
    obtain ⟨body', hbody, ⟨⟩⟩ := h
    exact runAll_ofCore hl body hbody ha

end

end

theorem global?_of_findGlobal? {name : String} {id : GlobalId}
    (h : p.findGlobal? name = some id) : ∃ g, p.global? id = some g ∧ g.name = name := by
  obtain ⟨i, hi, rfl⟩ := Option.map_eq_some_iff.mp h
  obtain ⟨hlt, hname, _⟩ := List.findIdx?_eq_some_iff_getElem.mp hi
  exact ⟨_, List.getElem?_eq_getElem hlt, beq_iff_eq.mp hname⟩

theorem copyIn_simulates (hc : Class.ofCore p = .ok c) (hn : (p.globals.map (·.name)).Nodup)
    (N : Meaning V) {locals : String → Option V} (call : String → Action (Store V) V) (bound : Nat)
    {arguments : String → V} (xs : List Core.Parameter)
    (hx : ∀ x ∈ xs, locals x.name = some (arguments x.name)) :
    Simulates (Corresponds p) (p.receive arguments xs)
      (Stmt.runAll D N c locals call bound (xs.map copyIn)) := by
  induction xs with
  | nil => exact Simulates.skip
  | cons x xs ih =>
    have hvalue : ∀ τ, (Expr.name x.name).value N c locals τ = some (arguments x.name) :=
      fun _ => hx x List.mem_cons_self
    have hfield := isSome_field?_ofCore hc x.name
    rw [Program.receive, List.map_cons, Stmt.runAll, copyIn, Stmt.run_assignTo]
    refine Simulates.andThen ?_ (ih fun y hy => hx y (List.mem_cons_of_mem x hy))
    refine Simulates.update fun σ τ hr => ?_
    rw [hvalue, Option.bind_eq_bind, Option.bind_some, Class.write]
    cases hfind : p.findGlobal? x.name with
    | none =>
      rw [hfind, Option.isSome_none, Option.isSome_eq_false_iff, Option.isNone_iff_eq_none]
        at hfield
      rw [hfield]
      exact .none
    | some id =>
      obtain ⟨g, hg, hname⟩ := global?_of_findGlobal? hfind
      rw [hfind, Option.isSome_some, Option.isSome_iff_exists] at hfield
      obtain ⟨f, hf⟩ := hfield
      rw [hf, ← hname]
      exact .some (hr.update hn hg _)

theorem call_simulates (hc : Class.ofCore p = .ok c) (hn : (p.globals.map (·.name)).Nodup)
    (hf : (p.functions.map (·.name)).Nodup) {M : Core.Meaning D} {N : Meaning V}
    (ha : ∀ e ∈ p.expressions, Agrees p c M N e) (n : Nat) (id : FunctionId) (f : Core.Function)
    (hid : p.function? id = some f) :
    Simulates (Corresponds p) (p.call M n id) (c.call D N n f.name) := by
  -- on the bound and not on the statements: a function may call itself
  induction n generalizing id f with
  | zero => exact Simulates.stop .exhausted
  | succ n ih =>
    obtain ⟨m, hm, hfind⟩ := privateMethod?_of_function? hc hf hid
    obtain ⟨body, hbody, rfl⟩ := Method.ofFunction_eq_ok.mp hm
    have hmem : f ∈ p.functions := List.mem_of_getElem? hid
    simp only [Program.call, hid, Class.call, hfind]
    refine runAll_ofCore ⟨hc, hn, ih⟩ f.body hbody fun e he => ha e ?_
    exact List.mem_flatMap.mpr ⟨f, List.mem_cons_of_mem _ hmem, he⟩

theorem locals_entryOf (body : List Stmt) (arguments : String → V) {x : Core.Parameter}
    (hx : x ∈ p.main.parameters) :
    (entryOf p body).locals arguments x.name = some (arguments x.name) := by
  have hsome : ((entryOf p body).parameters.find? (·.name == x.name)).isSome := by
    rw [List.find?_isSome]
    exact ⟨_, List.mem_map_of_mem hx, beq_self_eq_true x.name⟩
  obtain ⟨y, hy⟩ := Option.isSome_iff_exists.mp hsome
  have hname := List.find?_some hy
  rw [beq_iff_eq] at hname
  rw [Method.locals, hy, Option.map_some, hname]

/-- Class expressions with integers as values, a text counting for its length. -/
def lengthOf (read : String → Option Int) : Expr → Option Int
  | .int v => some v.toInt
  | .double _ => some 0
  | .string s => some s.length
  | .field .this n => read n
  | .binary .plus l r => do some ((← lengthOf read l) + (← lengthOf read r))
  | .binary .equals l r => do some (if (← lengthOf read l) = (← lengthOf read r) then 1 else 0)
  | .call _ _ [e] => lengthOf read e
  | .call _ _ [l, r] => do some (if (← lengthOf read l) = (← lengthOf read r) then 1 else 0)
  | _ => none

theorem lengthOf_ofCore (hc : Class.ofCore p = .ok c) {σ : Core.Store Int} {τ : Store Int}
    (hr : Corresponds p σ τ) {e : Core.Expr} {e' : Expr} (h : Expr.ofCore p e = .ok e') :
    lengthOf (c.read τ) e' = e.value Core.lengths σ := by
  induction e generalizing e' with
  | integer | decimal | string =>
    cases h
    rfl
  | global id =>
    obtain ⟨g, hg, rfl⟩ := fieldOf_eq_ok.mp h
    exact read_of_corresponds hc hr hg
  | parse e ih =>
    simp only [Expr.ofCore, bind_eq_ok] at h
    obtain ⟨x, hx, ⟨⟩⟩ := h
    rw [lengthOf, ih hx, Core.Expr.value]
    cases e.value Core.lengths σ <;> rfl
  | format e ih =>
    simp only [Expr.ofCore, bind_eq_ok] at h
    obtain ⟨x, hx, ⟨⟩⟩ := h
    rw [lengthOf, ih hx, Core.Expr.value, lengthOf]
    cases e.value Core.lengths σ with
    | none => rfl
    | some v => exact congrArg some (Int.zero_add v)
  | concat l r ihl ihr | sum l r ihl ihr =>
    simp only [Expr.ofCore, bind_eq_ok] at h
    obtain ⟨l', hl, r', hr', ⟨⟩⟩ := h
    rw [lengthOf, ihl hl, ihr hr', Core.Expr.value]
    rfl
  | equal l r ihl ihr =>
    simp only [Expr.ofCore, bind_eq_ok] at h
    obtain ⟨l', hl, r', hr', ⟨⟩⟩ := h
    unfold equalsTest
    split <;> rw [lengthOf, ihl hl, ihr hr', Core.Expr.value] <;> rfl

theorem agrees_lengths (hc : Class.ofCore p = .ok c) (e : Core.Expr) :
    Agrees p c (Core.meaningOf Core.lengths) (fun e read => lengthOf read e) e := by
  intro e' he' locals σ τ hr
  have hvalue := lengthOf_ofCore hc hr he'
  -- a field on its own is read as it is inside an expression
  have hwhole : e'.value (fun e read => lengthOf read e) c locals τ = lengthOf (c.read τ) e' := by
    unfold Expr.value
    split
    case h_1 => rw [lengthOf]
    case h_2 n => exact absurd rfl ((ofCore_shape he').1 n)
    case h_3 => rfl
  exact hwhole.trans hvalue

/-- The entry method prints what the main function prints, ends as it ends, also when the bound is
reached, and leaves every global's value in its field. -/
theorem entry_run_matches_main_run (h : SourceFile.ofCore p = .ok ⟨[c]⟩)
    (hglobals : (p.globals.map (·.name)).Nodup) (hfunctions : (p.functions.map (·.name)).Nodup)
    (M : Core.Meaning D) (N : Meaning V) (ha : ∀ e ∈ p.expressions, Agrees p c M N e)
    (arguments : String → V) (bound : Nat) (σ : Core.Store V) (τ : Store V)
    (hr : Corresponds p σ τ) :
    (p.run M arguments bound ⟨σ, []⟩).Matches (Corresponds p)
      (c.run D N arguments bound ⟨τ, []⟩) := by
  obtain ⟨c, hc, ⟨⟩⟩ := SourceFile.ofCore_eq_ok.mp h
  obtain ⟨body, hbody, hentry⟩ := publicMethod?_entryName hc
  have hlinked : Linked p c (p.call M bound) (c.call D N bound) :=
    ⟨hc, hglobals, call_simulates hc hglobals hfunctions ha bound⟩
  have hrun : c.run D N arguments bound =
      (Stmt.runAll D N c ((entryOf p body).locals arguments) (c.call D N bound) bound
        (p.main.parameters.map copyIn)).andThen
        (Stmt.runAll D N c ((entryOf p body).locals arguments) (c.call D N bound) bound body) := by
    simp only [Class.run, hentry]
    rw [← Stmt.runAll_append]
    rfl
  have hsimulates : Simulates (Corresponds p) (p.run M arguments bound)
      (c.run D N arguments bound) := by
    rw [hrun]
    refine Simulates.andThen ?_ ?_
    · exact copyIn_simulates hc hglobals N _ bound _ fun x hx => locals_entryOf body arguments hx
    · exact runAll_ofCore hlinked p.main.body hbody fun e he =>
        ha e (List.mem_flatMap.mpr ⟨p.main, List.mem_cons_self, he⟩)
  exact hsimulates ⟨σ, []⟩ ⟨τ, []⟩ hr rfl

theorem tally_class_run_matches : ∃ c, SourceFile.ofCore Core.tallyProgram = .ok ⟨[c]⟩ ∧
    (Core.tallyProgram.globals.map (·.name)).Nodup ∧
    (Core.tallyProgram.functions.map (·.name)).Nodup ∧
    (∀ e ∈ Core.tallyProgram.expressions,
      Agrees Core.tallyProgram c (Core.meaningOf Core.lengths) (fun e read => lengthOf read e) e) ∧
    (Core.tallyProgram.run (Core.meaningOf Core.lengths) (fun _ => 5) 4 ⟨fun _ => 0, []⟩).Matches
      (Corresponds Core.tallyProgram)
      (c.run Core.lengths.values (fun e read => lengthOf read e) (fun _ => 5) 4
        ⟨fun _ => 0, []⟩) ∧
    (Core.tallyProgram.run (Core.meaningOf Core.lengths) (fun _ => 5) 4
      ⟨fun _ => 0, []⟩).state.printed = [6, 0, 3] := by
  have hglobals : (Core.tallyProgram.globals.map (·.name)).Nodup := by decide
  have hfunctions : (Core.tallyProgram.functions.map (·.name)).Nodup := by decide
  obtain ⟨c, hc⟩ : ∃ c, Class.ofCore Core.tallyProgram = .ok c := ⟨_, rfl⟩
  have hfile : SourceFile.ofCore Core.tallyProgram = .ok ⟨[c]⟩ :=
    SourceFile.ofCore_eq_ok.mpr ⟨c, hc, rfl⟩
  have hagrees := fun e (_ : e ∈ Core.tallyProgram.expressions) => agrees_lengths hc e
  exact ⟨c, hfile, hglobals, hfunctions, hagrees,
    entry_run_matches_main_run hfile hglobals hfunctions _ _ hagrees (fun _ => 5) 4 (fun _ => 0)
      (fun _ => 0) fun _ _ _ => rfl, by decide⟩

end RpgLowering.Target
