import RpgLowering.Core.OfSource
import RpgLowering.Proofs.Bind
import RpgLowering.Proofs.Firsts

/-! What the declarations of a unit leave behind. After any part of them the scope is the table of
the identities met so far, numbered in order of first appearance, and the globals and functions are
those of the first declarations. -/
namespace RpgLowering.Core
open RpgLowering.Source (CompilationUnit DataDefinition DataId Reference Subroutine SubroutineId)
variable {u : CompilationUnit} {p p' : Program} {s s' : Scope}

/-- The scope in which some data and some subroutines have been declared. -/
def scopeOf (u : CompilationUnit) (ds : List DataDefinition) (xs : List Subroutine) : Scope :=
  { unit := u
    globals := numbered (·.id) GlobalId.mk ds
    functions := numbered (·.id) FunctionId.mk xs }

/-- The global of a declaration, with its initial value lowered in a scope. -/
structure GlobalOf (s : Scope) (d : DataDefinition) (g : Global) : Prop where
  name : g.name = d.name
  ty : d.ty.toCore = .ok g.ty
  initial : d.initial.mapM (Expr.ofSource s) = .ok g.initial

/-- The globals of the first declarations. An initial value sees what was declared up to it. -/
inductive Globals (u : CompilationUnit) : List DataDefinition → List Global → Prop where
  | nil : Globals u [] []
  | again {ds gs d} : Globals u ds gs → d.id ∈ ds.map (·.id) → Globals u (ds ++ [d]) gs
  | first {ds gs d g} : Globals u ds gs → d.id ∉ ds.map (·.id) →
      GlobalOf (scopeOf u (ds ++ [d]) []) d g → g.name ∉ gs.map (·.name) →
      Globals u (ds ++ [d]) (gs ++ [g])

theorem Globals.names {ds : List DataDefinition} {gs : List Global} (h : Globals u ds gs) :
    gs.map (·.name) = (firsts (·.id) ds).map (·.name) := by
  induction h with
  | nil => rfl
  | again _ hid ih => rw [firsts_concat, if_pos hid, ih]
  | first _ hid hg _ ih =>
    rw [firsts_concat, if_neg hid, List.map_append, List.map_append, ih, List.map_singleton,
      List.map_singleton, hg.name]

theorem Globals.length {ds : List DataDefinition} {gs : List Global} (h : Globals u ds gs) :
    gs.length = (firsts (·.id) ds).length := by
  simpa using congrArg List.length h.names

theorem Globals.nodup_names {ds : List DataDefinition} {gs : List Global} (h : Globals u ds gs) :
    (gs.map (·.name)).Nodup := by
  induction h with
  | nil => exact List.nodup_nil
  | again _ _ ih => exact ih
  | first _ _ _ hname ih =>
    rw [List.map_append, List.map_singleton]
    exact List.nodup_append.mpr ⟨ih, List.nodup_singleton _, by simpa using hname⟩

theorem isSome_lookup_globals (ds : List DataDefinition) (xs : List Subroutine) (id : DataId) :
    ((scopeOf u ds xs).globals.lookup id).isSome ↔ id ∈ ds.map (·.id) :=
  isSome_lookup_numbered DataDefinition.id GlobalId.mk ds id

theorem isSome_lookup_functions (ds : List DataDefinition) (xs : List Subroutine)
    (id : SubroutineId) :
    ((scopeOf u ds xs).functions.lookup id).isSome ↔ id ∈ xs.map (·.id) :=
  isSome_lookup_numbered Subroutine.id FunctionId.mk xs id

/-- The number of an item of data is below the number of globals. -/
theorem Globals.lookup_lt {ds : List DataDefinition} {xs : List Subroutine} {gs : List Global}
    {id : DataId} {g : GlobalId} (h : Globals u ds gs)
    (hg : (scopeOf u ds xs).globals.lookup id = some g) : g.index < gs.length := by
  obtain ⟨i, d, hd, _, rfl⟩ := (lookup_numbered_eq_some DataDefinition.id GlobalId.mk ds id g).mp hg
  rw [h.length]
  exact (List.getElem?_eq_some_iff.mp hd).1

theorem located_eq_ok {α : Type} {span : Option Span} {x : Except Failure α} {a : α} :
    located span x = .ok a ↔ x = .ok a := by
  cases x with
  | error f => simp [located]
  | ok b => simp [located]

theorem Program.findGlobal?_eq_none {name : String} :
    p.findGlobal? name = none ↔ name ∉ p.globals.map (·.name) := by
  simp [Program.findGlobal?, List.findIdx?_eq_none_iff]

theorem Program.findFunction?_eq_none {name : String} :
    p.findFunction? name = none ↔ name ∉ p.functions.map (·.name) := by
  simp [Program.findFunction?, List.findIdx?_eq_none_iff]

theorem Program.declareGlobal_of_free {g : Global} (h : g.name ∉ p.globals.map (·.name)) :
    p.declareGlobal g = (.ok ⟨p.globals.length⟩, { p with globals := p.globals ++ [g] }) := by
  rw [Program.declareGlobal, Program.findGlobal?_eq_none.mpr h]

theorem Program.declareGlobal_of_taken {g : Global} (h : g.name ∈ p.globals.map (·.name)) :
    p.declareGlobal g =
      (.error (.shape "global variable" ("duplicate name `" ++ g.name ++ "`") none), p) := by
  rw [Program.declareGlobal]
  cases hid : p.findGlobal? g.name with
  | none => exact absurd h (Program.findGlobal?_eq_none.mp hid)
  | some id => rfl

theorem Program.declareFunction_of_free {f : Function} (h : f.name ∉ p.functions.map (·.name)) :
    p.declareFunction f =
      (.ok ⟨p.functions.length⟩, { p with functions := p.functions ++ [f] }) := by
  rw [Program.declareFunction, Program.findFunction?_eq_none.mpr h]

theorem Program.declareFunction_of_taken {f : Function} (h : f.name ∈ p.functions.map (·.name)) :
    p.declareFunction f =
      (.error (.shape "function" ("duplicate name `" ++ f.name ++ "`") none), p) := by
  rw [Program.declareFunction]
  cases hid : p.findFunction? f.name with
  | none => exact absurd h (Program.findFunction?_eq_none.mp hid)
  | some id => rfl

theorem Program.declareGlobal_eq_ok {g : Global} {id : GlobalId} :
    (p.declareGlobal g).1 = .ok id ↔ g.name ∉ p.globals.map (·.name) ∧
      ⟨p.globals.length⟩ = id := by
  by_cases h : g.name ∈ p.globals.map (·.name)
  · rw [Program.declareGlobal_of_taken h]
    simp [h]
  · rw [Program.declareGlobal_of_free h]
    simp [h]

theorem Program.declareFunction_eq_ok {f : Function} {id : FunctionId} :
    (p.declareFunction f).1 = .ok id ↔ f.name ∉ p.functions.map (·.name) ∧
      ⟨p.functions.length⟩ = id := by
  by_cases h : f.name ∈ p.functions.map (·.name)
  · rw [Program.declareFunction_of_taken h]
    simp [h]
  · rw [Program.declareFunction_of_free h]
    simp [h]

theorem modify_concat {α : Type} (l : List α) (a : α) (f : α → α) :
    (l ++ [a]).modify l.length f = l ++ [f a] := by
  simp [List.modify_eq_take_drop]

theorem Program.global?_concat (gs : List Global) (g : Global) :
    ({ p with globals := gs ++ [g] } : Program).global? ⟨gs.length⟩ = some g :=
  List.getElem?_concat_length

/-- The global of a declaration before it has its value. -/
theorem declareGlobalOf_eq_ok {d : DataDefinition} {r : GlobalId × Scope × Program} :
    declareGlobalOf s p d = .ok r ↔ ∃ t, d.ty.toCore = .ok t ∧ d.name ∉ p.globals.map (·.name) ∧
      (⟨p.globals.length⟩, { s with globals := s.globals ++ [(d.id, ⟨p.globals.length⟩)] },
        { p with globals := p.globals ++ [{ name := d.name, ty := t }] }) = r := by
  simp only [declareGlobalOf, bind_eq_ok, located_eq_ok, Except.ok.injEq]
  constructor
  · rintro ⟨t, ht, id, hid, h⟩
    obtain ⟨hname, rfl⟩ := Program.declareGlobal_eq_ok.mp hid
    rw [Program.declareGlobal_of_free hname] at h
    exact ⟨t, ht, hname, h⟩
  · rintro ⟨t, ht, hname, h⟩
    refine ⟨t, ht, _, Program.declareGlobal_eq_ok.mpr ⟨hname, rfl⟩, ?_⟩
    rw [Program.declareGlobal_of_free hname]
    exact h

/-- One declaration: nothing happens to an identity met before, and any other gets a global. -/
theorem declareData_eq_ok {ds : List DataDefinition} {d : DataDefinition} {r : Scope × Program}
    (hlen : p.globals.length = (firsts (·.id) ds).length) :
    declareData (scopeOf u ds []) p d = .ok r ↔
      d.id ∈ ds.map (·.id) ∧ (scopeOf u (ds ++ [d]) [], p) = r ∨
      d.id ∉ ds.map (·.id) ∧ ∃ g, GlobalOf (scopeOf u (ds ++ [d]) []) d g ∧
        d.name ∉ p.globals.map (·.name) ∧
        (scopeOf u (ds ++ [d]) [], { p with globals := p.globals ++ [g] }) = r := by
  have hseen := isSome_lookup_globals (u := u) ds [] d.id
  have htable := numbered_concat (·.id) GlobalId.mk ds d
  by_cases hd : d.id ∈ ds.map (·.id)
  · have hscope : scopeOf u (ds ++ [d]) [] = scopeOf u ds [] := by
      rw [scopeOf, htable, if_pos hd, scopeOf]
    have hlookup : ((scopeOf u ds []).globals.lookup d.id).isSome := hseen.mpr hd
    rw [declareData, if_pos hlookup, hscope]
    simp [hd]
  · have hscope : scopeOf u (ds ++ [d]) [] = { scopeOf u ds [] with
        globals := (scopeOf u ds []).globals ++ [(d.id, ⟨p.globals.length⟩)] } := by
      rw [scopeOf, htable, if_neg hd, hlen, scopeOf]
    have hlookup : ¬ ((scopeOf u ds []).globals.lookup d.id).isSome := fun h => hd (hseen.mp h)
    rw [declareData, if_neg hlookup]
    simp only [bind_eq_ok, declareGlobalOf_eq_ok, ← hscope, hd, false_and, not_false_eq_true,
      true_and, false_or]
    constructor
    · rintro ⟨_, ⟨t, ht, hname, rfl⟩, h⟩
      cases hi : d.initial with
      | none =>
        simp only [hi, Except.ok.injEq] at h
        exact ⟨{ name := d.name, ty := t }, ⟨rfl, ht, by rw [hi]; rfl⟩, hname, h⟩
      | some e =>
        simp only [hi, bind_eq_ok, Except.ok.injEq, Program.global?_concat, Program.modifyGlobal,
          modify_concat] at h
        obtain ⟨v, hv, h⟩ := h
        refine ⟨{ name := d.name, ty := t, initial := some v }, ⟨rfl, ht, ?_⟩, hname, h⟩
        rw [hi, optionMapM_eq_ok]
        exact .some hv
    · rintro ⟨⟨name, t, initial⟩, ⟨hn, ht, hi⟩, hname, h⟩
      subst hn
      refine ⟨_, ⟨t, ht, hname, rfl⟩, ?_⟩
      rw [optionMapM_eq_ok] at hi
      generalize d.initial = o at hi
      cases hi with
      | none => exact congrArg _ h
      | some hv =>
        simp only [bind_eq_ok, Except.ok.injEq, Program.global?_concat, Program.modifyGlobal,
          modify_concat]
        exact ⟨_, hv, h⟩

theorem declareData_globals {before : List DataDefinition} {d : DataDefinition}
    {r : Scope × Program} (hg : Globals u before p.globals)
    (h : declareData (scopeOf u before []) p d = .ok r) :
    ∃ gs, Globals u (before ++ [d]) gs ∧
      r = (scopeOf u (before ++ [d]) [], { p with globals := gs }) := by
  rcases (declareData_eq_ok hg.length).mp h with hagain | hfirst
  · obtain ⟨hd, rfl⟩ := hagain
    exact ⟨p.globals, hg.again hd, rfl⟩
  · obtain ⟨hd, g, hgd, hname, rfl⟩ := hfirst
    have hfresh : g.name ∉ p.globals.map (·.name) := hgd.name ▸ hname
    exact ⟨p.globals ++ [g], hg.first hd hgd hfresh, rfl⟩

/-- A run of declarations from any part of them on. -/
theorem declareAllData_globals {before ds : List DataDefinition}
    (hg : Globals u before p.globals)
    (h : declareAllData (scopeOf u before []) p ds = .ok (s', p')) :
    s' = scopeOf u (before ++ ds) [] ∧ Globals u (before ++ ds) p'.globals ∧
      p' = { p with globals := p'.globals } := by
  induction ds generalizing before p with
  | nil =>
    cases h
    rw [List.append_nil]
    exact ⟨rfl, hg, rfl⟩
  | cons d ds ih =>
    simp only [declareAllData, bind_eq_ok] at h
    obtain ⟨r, hd, hrest⟩ := h
    obtain ⟨gs, hgs, rfl⟩ := declareData_globals hg hd
    rw [List.append_cons]
    exact ih (p := { p with globals := gs }) hgs hrest

/-- What a declaration has to satisfy after some others. -/
def Declarable (u : CompilationUnit) (before : List DataDefinition) (d : DataDefinition) : Prop :=
  (d.id ∉ before.map (·.id) → ∃ g, GlobalOf (scopeOf u (before ++ [d]) []) d g) ∧
    Fresh (·.id) (·.name) before d

theorem exists_declareData {before : List DataDefinition} {d : DataDefinition}
    (hn : p.globals.map (·.name) = (firsts (·.id) before).map (·.name)) :
    (∃ r, declareData (scopeOf u before []) p d = .ok r) ↔ Declarable u before d := by
  have hlen : p.globals.length = (firsts (·.id) before).length := by
    simpa using congrArg List.length hn
  simp only [declareData_eq_ok hlen, Declarable, Fresh, hn]
  by_cases hd : d.id ∈ before.map (·.id)
  · simp [hd]
  · simp [hd]

theorem declareData_names {before : List DataDefinition} {d : DataDefinition}
    {r : Scope × Program} (hn : p.globals.map (·.name) = (firsts (·.id) before).map (·.name))
    (h : declareData (scopeOf u before []) p d = .ok r) :
    r.1 = scopeOf u (before ++ [d]) [] ∧
      r.2.globals.map (·.name) = (firsts (·.id) (before ++ [d])).map (·.name) := by
  have hlen : p.globals.length = (firsts (·.id) before).length := by
    simpa using congrArg List.length hn
  rw [firsts_concat]
  rcases (declareData_eq_ok hlen).mp h with hagain | hfirst
  · obtain ⟨hd, rfl⟩ := hagain
    rw [if_pos hd]
    exact ⟨rfl, hn⟩
  · obtain ⟨hd, g, hg, -, rfl⟩ := hfirst
    rw [if_neg hd, List.map_append, List.map_append, hn, List.map_singleton, List.map_singleton,
      hg.name]
    exact ⟨rfl, rfl⟩

theorem exists_declareAllData {before ds : List DataDefinition}
    (hn : p.globals.map (·.name) = (firsts (·.id) before).map (·.name)) :
    (∃ r, declareAllData (scopeOf u before []) p ds = .ok r) ↔
      ∀ between d after, ds = between ++ d :: after → Declarable u (before ++ between) d := by
  induction ds generalizing before p with
  | nil => simp [declareAllData]
  | cons d ds ih =>
    have hrest : ∀ r, declareData (scopeOf u before []) p d = .ok r →
        ((∃ r', declareAllData r.1 r.2 ds = .ok r') ↔ ∀ between e after,
          ds = between ++ e :: after → Declarable u (before ++ d :: between) e) := by
      intro r hr
      obtain ⟨hscope, hnames⟩ := declareData_names hn hr
      rw [hscope, ih hnames]
      simp only [List.append_assoc, List.singleton_append]
    rw [forall_split_cons (P := fun between d => Declarable u (before ++ between) d),
      List.append_nil, ← exists_declareData hn]
    simp only [declareAllData, bind_eq_ok]
    constructor
    · intro h
      obtain ⟨r', r, hr, hr'⟩ := h
      exact ⟨⟨r, hr⟩, (hrest r hr).mp ⟨r', hr'⟩⟩
    · intro h
      obtain ⟨⟨r, hr⟩, hall⟩ := h
      obtain ⟨r', hr'⟩ := (hrest r hr).mpr hall
      exact ⟨r', r, hr, hr'⟩

/-- The functions of the first subroutines, still without statements. -/
def functionsOf (xs : List Subroutine) : List Function :=
  (firsts (·.id) xs).map fun x => { name := x.name }

theorem functionsOf_concat (xs : List Subroutine) (x : Subroutine) :
    functionsOf (xs ++ [x]) = if x.id ∈ xs.map (·.id) then functionsOf xs
      else functionsOf xs ++ [{ name := x.name }] := by
  rw [functionsOf, firsts_concat]
  split
  · rfl
  · rw [List.map_append, List.map_singleton, functionsOf]

theorem names_functionsOf (xs : List Subroutine) :
    (functionsOf xs).map (·.name) = (firsts (·.id) xs).map (·.name) := by
  rw [functionsOf, List.map_map]
  rfl

/-- The number of a subroutine is below the number of functions. -/
theorem lookup_functions_lt {ds : List DataDefinition} {xs : List Subroutine} {id : SubroutineId}
    {f : FunctionId} (hf : (scopeOf u ds xs).functions.lookup id = some f) :
    f.index < (functionsOf xs).length := by
  obtain ⟨i, x, hx, _, rfl⟩ := (lookup_numbered_eq_some Subroutine.id FunctionId.mk xs id f).mp hf
  rw [functionsOf, List.length_map]
  exact (List.getElem?_eq_some_iff.mp hx).1

theorem declareSubroutine_eq_ok {ds : List DataDefinition} {xs : List Subroutine} {x : Subroutine}
    {r : Scope × Program} (hf : p.functions = functionsOf xs) :
    declareSubroutine (scopeOf u ds xs) p x = .ok r ↔ Fresh (·.id) (·.name) xs x ∧
      (scopeOf u ds (xs ++ [x]), { p with functions := functionsOf (xs ++ [x]) }) = r := by
  have hseen := isSome_lookup_functions (u := u) ds xs x.id
  have htable := numbered_concat (·.id) FunctionId.mk xs x
  rw [functionsOf_concat]
  by_cases hx : x.id ∈ xs.map (·.id)
  · have hscope : scopeOf u ds (xs ++ [x]) = scopeOf u ds xs := by
      rw [scopeOf, htable, if_pos hx, scopeOf]
    have hlookup : ((scopeOf u ds xs).functions.lookup x.id).isSome := hseen.mpr hx
    rw [declareSubroutine, if_pos hlookup, hscope, if_pos hx, ← hf]
    simp [Fresh, hx]
  · have hlen : p.functions.length = (firsts (·.id) xs).length := by
      rw [hf, functionsOf, List.length_map]
    have hscope : scopeOf u ds (xs ++ [x]) = { scopeOf u ds xs with
        functions := (scopeOf u ds xs).functions ++ [(x.id, ⟨p.functions.length⟩)] } := by
      rw [scopeOf, htable, if_neg hx, hlen, scopeOf]
    have hlookup : ¬ ((scopeOf u ds xs).functions.lookup x.id).isSome := fun h => hx (hseen.mp h)
    rw [declareSubroutine, if_neg hlookup, if_neg hx, hscope, Fresh, ← names_functionsOf, ← hf]
    simp only [bind_eq_ok, located_eq_ok, Except.ok.injEq]
    constructor
    · rintro ⟨id, hid, h⟩
      obtain ⟨hname, rfl⟩ := Program.declareFunction_eq_ok.mp hid
      rw [Program.declareFunction_of_free hname] at h
      exact ⟨fun _ => hname, h⟩
    · rintro ⟨hname, h⟩
      refine ⟨_, Program.declareFunction_eq_ok.mpr ⟨hname hx, rfl⟩, ?_⟩
      rw [Program.declareFunction_of_free (hname hx)]
      exact h

theorem declareAllSubroutines_eq_ok {ds : List DataDefinition} {before xs : List Subroutine}
    {r : Scope × Program} (hf : p.functions = functionsOf before) :
    declareAllSubroutines (scopeOf u ds before) p xs = .ok r ↔
      (∀ between x after, xs = between ++ x :: after →
        Fresh (·.id) (·.name) (before ++ between) x) ∧
      (scopeOf u ds (before ++ xs), { p with functions := functionsOf (before ++ xs) }) = r := by
  induction xs generalizing before p with
  | nil => simp [declareAllSubroutines, ← hf]
  | cons x xs ih =>
    rw [forall_split_cons (P := fun between => Fresh Subroutine.id Subroutine.name
      (before ++ between)), List.append_nil]
    simp only [declareAllSubroutines, bind_eq_ok, declareSubroutine_eq_ok hf]
    constructor
    · rintro ⟨_, ⟨hx, rfl⟩, hrest⟩
      obtain ⟨hxs, hr⟩ := (ih rfl).mp hrest
      simp only [List.append_assoc, List.singleton_append] at hxs hr
      exact ⟨⟨hx, hxs⟩, hr⟩
    · rintro ⟨⟨hx, hxs⟩, hr⟩
      refine ⟨_, ⟨hx, rfl⟩, (ih rfl).mpr ?_⟩
      simp only [List.append_assoc, List.singleton_append]
      exact ⟨hxs, hr⟩

end RpgLowering.Core
