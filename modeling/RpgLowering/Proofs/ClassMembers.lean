import RpgLowering.Proofs.Bind
import RpgLowering.Proofs.TargetRun
import Mathlib.Data.List.Nodup

/-! What the class of a program consists of, and what a name finds in it. Names have to be
distinct for a name to find the member of the function it was taken from. -/
namespace RpgLowering.Target
open RpgLowering.Core (GlobalId FunctionId Program)
variable {p : Program} {c : Class}

theorem fieldOf_eq_ok {id : GlobalId} {e : Expr} :
    fieldOf p id = .ok e ↔ ∃ g, p.global? id = some g ∧ Expr.thisField g.name = e := by
  unfold fieldOf
  cases p.global? id with
  | none => simp
  | some g => simp

theorem Field.ofCore_eq_ok {g : Core.Global} {f : Field} :
    Field.ofCore p g = .ok f ↔ ∃ init, g.initial.mapM (Expr.ofCore p) = .ok init ∧
      { ty := g.ty.toTarget, name := g.name, initializer := init } = f := by
  simp only [Field.ofCore, bind_eq_ok, Except.ok.injEq]

theorem Method.ofFunction_eq_ok {f : Core.Function} {m : Method} :
    Method.ofFunction p f = .ok m ↔ ∃ body, Stmt.ofCores p f.body = .ok body ∧
      { modifiers := [.priv], name := f.name, body } = m := by
  simp only [Method.ofFunction, bind_eq_ok, Except.ok.injEq]

/-- The entry method with a given body. -/
def entryOf (p : Program) (body : List Stmt) : Method :=
  { modifiers := [.pub], name := entryName,
    parameters := p.main.parameters.map fun x => ⟨x.ty.toTarget, x.name⟩,
    body := p.main.parameters.map copyIn ++ body }

theorem Method.ofMain_eq_ok {m : Method} :
    Method.ofMain p = .ok m ↔ ∃ body, Stmt.ofCores p p.main.body = .ok body ∧
      entryOf p body = m := by
  simp only [Method.ofMain, entryOf, bind_eq_ok, Except.ok.injEq]

theorem Class.ofCore_eq_ok :
    Class.ofCore p = .ok c ↔ ∃ fields body others,
      List.Forall₂ (fun g f => Field.ofCore p g = .ok f) p.globals fields ∧
      Stmt.ofCores p p.main.body = .ok body ∧
      List.Forall₂ (fun f m => Method.ofFunction p f = .ok m) p.functions others ∧
      { name := p.name, fields, methods := entryOf p body :: others } = c := by
  simp only [Class.ofCore, bind_eq_ok, mapM_eq_ok, Method.ofMain_eq_ok, Except.ok.injEq]
  constructor
  · rintro ⟨fields, hf, _, ⟨body, hb, rfl⟩, others, ho, rfl⟩
    exact ⟨fields, body, others, hf, hb, ho, rfl⟩
  · rintro ⟨fields, body, others, hf, hb, ho, rfl⟩
    exact ⟨fields, hf, _, ⟨body, hb, rfl⟩, others, ho, rfl⟩

theorem SourceFile.ofCore_eq_ok {f : SourceFile} :
    SourceFile.ofCore p = .ok f ↔ ∃ c, Class.ofCore p = .ok c ∧ ⟨[c]⟩ = f := by
  simp only [SourceFile.ofCore, bind_eq_ok, Except.ok.injEq]

theorem names_of_fields {gs : List Core.Global} {fs : List Field}
    (h : List.Forall₂ (fun g f => Field.ofCore p g = .ok f) gs fs) :
    fs.map (·.name) = gs.map (·.name) := by
  refine map_eq_of_forall₂ (fun g f hf => ?_) h
  obtain ⟨_, _, rfl⟩ := Field.ofCore_eq_ok.mp hf
  rfl

/-- The class has a field of a name exactly if the program has a global of it. -/
theorem isSome_field?_ofCore (h : Class.ofCore p = .ok c) (name : String) :
    (c.field? name).isSome = (p.findGlobal? name).isSome := by
  obtain ⟨fields, _, _, hf, _, _, rfl⟩ := Class.ofCore_eq_ok.mp h
  have hmem : name ∈ fields.map (·.name) ↔ name ∈ p.globals.map (·.name) := by
    rw [names_of_fields hf]
  simp only [List.mem_map] at hmem
  simp only [Class.field?, Program.findGlobal?, Option.isSome_map, List.findIdx?_isSome]
  rw [Bool.eq_iff_iff, List.find?_isSome, List.any_eq_true]
  simpa only [beq_iff_eq] using hmem

theorem field?_of_global? (h : Class.ofCore p = .ok c) {id : GlobalId} {g : Core.Global}
    (hg : p.global? id = some g) : ∃ f, c.field? g.name = some f := by
  have hmem : g ∈ p.globals := List.mem_of_getElem? hg
  have hsome := isSome_field?_ofCore h g.name
  have hfind : (p.findGlobal? g.name).isSome = true := by
    simp only [Program.findGlobal?, Option.isSome_map, List.findIdx?_isSome, List.any_eq_true]
    exact ⟨g, hmem, beq_self_eq_true g.name⟩
  rw [hfind] at hsome
  exact Option.isSome_iff_exists.mp hsome

theorem find?_field {gs : List Core.Global} {fs : List Field}
    (h : List.Forall₂ (fun g f => Field.ofCore p g = .ok f) gs fs) (hn : (gs.map (·.name)).Nodup)
    {g : Core.Global} (hg : g ∈ gs) :
    ∃ f, Field.ofCore p g = .ok f ∧ fs.find? (·.name == g.name) = some f := by
  induction h with
  | nil => simp at hg
  | @cons g' f gs fs hf _ ih =>
    obtain ⟨hnot, hn'⟩ := List.nodup_cons.mp hn
    obtain ⟨init, _, rfl⟩ := Field.ofCore_eq_ok.mp hf
    rcases List.mem_cons.mp hg with rfl | htail
    · exact ⟨_, hf, by simp⟩
    · have hne : g'.name ≠ g.name := by
        intro he
        exact hnot (List.mem_map.mpr ⟨g, htail, he.symm⟩)
      obtain ⟨f', hf', hfind⟩ := ih hn' htail
      exact ⟨f', hf', by simpa [List.find?_cons, hne] using hfind⟩

/-- A field has the type of the global of its name. -/
theorem ty_field? (h : Class.ofCore p = .ok c) (hn : (p.globals.map (·.name)).Nodup)
    {id : GlobalId} {g : Core.Global} (hg : p.global? id = some g) :
    ∃ f, c.field? g.name = some f ∧ f.ty = g.ty.toTarget := by
  obtain ⟨fields, _, _, hf, _, _, rfl⟩ := Class.ofCore_eq_ok.mp h
  obtain ⟨f, hof, hfind⟩ := find?_field hf hn (List.mem_of_getElem? hg)
  obtain ⟨_, _, rfl⟩ := Field.ofCore_eq_ok.mp hof
  exact ⟨_, hfind, rfl⟩

theorem find?_private {fs : List Core.Function} {ms : List Method}
    (h : List.Forall₂ (fun f m => Method.ofFunction p f = .ok m) fs ms)
    (hn : (fs.map (·.name)).Nodup) {f : Core.Function} (hf : f ∈ fs) :
    ∃ m, Method.ofFunction p f = .ok m ∧
      ms.find? (fun m => m.name == f.name && m.modifiers.contains .priv) = some m := by
  induction h with
  | nil => simp at hf
  | @cons f' m fs ms hm _ ih =>
    obtain ⟨hnot, hn'⟩ := List.nodup_cons.mp hn
    obtain ⟨body, _, rfl⟩ := Method.ofFunction_eq_ok.mp hm
    rcases List.mem_cons.mp hf with rfl | htail
    · exact ⟨_, hm, by simp⟩
    · have hne : f'.name ≠ f.name := by
        intro he
        exact hnot (List.mem_map.mpr ⟨f, htail, he.symm⟩)
      obtain ⟨m', hm', hfind⟩ := ih hn' htail
      exact ⟨m', hm', by simpa [List.find?_cons, hne] using hfind⟩

/- The entry method comes first, but it is not private, so it never hides a function of its name. -/
theorem privateMethod?_of_function? (h : Class.ofCore p = .ok c)
    (hn : (p.functions.map (·.name)).Nodup) {id : FunctionId} {f : Core.Function}
    (hf : p.function? id = some f) :
    ∃ m, Method.ofFunction p f = .ok m ∧ c.privateMethod? f.name = some m := by
  obtain ⟨_, body, others, _, _, ho, rfl⟩ := Class.ofCore_eq_ok.mp h
  obtain ⟨m, hm, hfind⟩ := find?_private ho hn (List.mem_of_getElem? hf)
  exact ⟨m, hm, by simpa [Class.privateMethod?, entryOf] using hfind⟩

theorem publicMethod?_entryName (h : Class.ofCore p = .ok c) :
    ∃ body, Stmt.ofCores p p.main.body = .ok body ∧
      c.publicMethod? entryName = some (entryOf p body) := by
  obtain ⟨_, body, _, _, hb, _, rfl⟩ := Class.ofCore_eq_ok.mp h
  exact ⟨body, hb, by simp [Class.publicMethod?, entryOf]⟩

end RpgLowering.Target
