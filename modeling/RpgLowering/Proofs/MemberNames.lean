import RpgLowering.Proofs.ClassMembers
import RpgLowering.Proofs.WellFormed

/-! Which members of a class can be told apart. Fields always can, and so can private methods. The entry
method has a fixed name that a subroutine may have too, and its parameters may name one field twice. -/
namespace RpgLowering

theorem nodup_map_iff {α β γ δ : Type} {R : α → β → Prop} {f : α → γ} {k : β → δ}
    (hR : ∀ a a' b b', R a b → R a' b' → (f a = f a' ↔ k b = k b')) {l : List α} {l' : List β}
    (h : List.Forall₂ R l l') : (l.map f).Nodup ↔ (l'.map k).Nodup := by
  induction h with
  | nil => simp
  | @cons a b l l' hab hrest ih =>
    have hmem : f a ∈ l.map f ↔ k b ∈ l'.map k := by
      simp only [List.mem_map]
      constructor
      · intro h
        obtain ⟨a', ha', heq⟩ := h
        obtain ⟨i, hi⟩ := List.mem_iff_getElem?.mp ha'
        obtain ⟨b', hb', hab'⟩ := getElem?_of_forall₂ hrest hi
        exact ⟨b', List.mem_of_getElem? hb', (hR a' a b' b hab' hab).mp heq⟩
      · intro h
        obtain ⟨b', hb', heq⟩ := h
        obtain ⟨a', ha', hab'⟩ := exists_of_forall₂_right hrest hb'
        exact ⟨a', ha', (hR a' a b' b hab' hab).mpr heq⟩
    rw [List.map_cons, List.map_cons, List.nodup_cons, List.nodup_cons, hmem, ih]

namespace Core
open RpgLowering.Source (CompilationUnit DataId Reference)
variable {u : CompilationUnit} {p : Program}

/-- Two parameters have the same name exactly if their references are bound to one identity. -/
theorem ProgramOf.name_parameter_eq_iff (h : ProgramOf u p) {r r' : Reference DataId}
    {x x' : Parameter} (hx : parameterOf (unitScope u) p r = .ok x)
    (hx' : parameterOf (unitScope u) p r' = .ok x') :
    r.referred = r'.referred ↔ x.name = x'.name := by
  obtain ⟨g, y, hg, hy, rfl⟩ := parameterOf_eq_ok.mp hx
  obtain ⟨g', y', hg', hy', rfl⟩ := parameterOf_eq_ok.mp hx'
  obtain ⟨id, hr, hid⟩ := Scope.global_eq_ok.mp hg
  obtain ⟨id', hr', hid'⟩ := Scope.global_eq_ok.mp hg'
  rw [hr, hr', Option.some.injEq]
  constructor
  · intro heq
    subst heq
    obtain rfl : g = g' := Option.some.inj (hid.symm.trans hid')
    obtain rfl : y = y' := Option.some.inj (hy.symm.trans hy')
    rfl
  · intro heq
    have hname : Global.name y = Global.name y' := heq
    have hindex : g.index = g'.index :=
      index_eq_of_key_eq h.globals.nodup_names hy hy' hname
    obtain ⟨i, d, hd, rfl, rfl⟩ := lookup_unitScope.mp hid
    obtain ⟨i', d', hd', rfl, rfl⟩ := lookup_unitScope.mp hid'
    obtain rfl : i = i' := hindex
    obtain rfl : d = d' := Option.some.inj (hd.symm.trans hd')
    rfl

end Core

namespace Target
open RpgLowering.Core (Program entryReferences)
open RpgLowering.Source (CompilationUnit DataId Reference)
variable {u : CompilationUnit} {p : Program}

/-- What a call tells methods apart by. -/
def Method.signature (m : Method) : String × List Ty := (m.name, m.parameters.map (·.ty))

theorem names_of_functions {fs : List Core.Function} {ms : List Method}
    (h : List.Forall₂ (fun f m => Method.ofFunction p f = .ok m) fs ms) :
    ms.map (·.name) = fs.map (·.name) := by
  refine map_eq_of_forall₂ (fun f m hm => ?_) h
  obtain ⟨body, -, rfl⟩ := Method.ofFunction_eq_ok.mp hm
  rfl

theorem parameters_of_functions {fs : List Core.Function} {ms : List Method}
    (h : List.Forall₂ (fun f m => Method.ofFunction p f = .ok m) fs ms) :
    ∀ m ∈ ms, m.parameters = [] := by
  intro m hm
  obtain ⟨f, -, hf⟩ := exists_of_forall₂_right h hm
  obtain ⟨body, -, rfl⟩ := Method.ofFunction_eq_ok.mp hf
  rfl

theorem signatures_of_functions {fs : List Core.Function} {ms : List Method}
    (h : List.Forall₂ (fun f m => Method.ofFunction p f = .ok m) fs ms) :
    ms.map Method.signature = (fs.map (·.name)).map fun n => (n, []) := by
  rw [← names_of_functions h, List.map_map]
  apply List.map_congr_left
  intro m hm
  simp [Method.signature, parameters_of_functions h m hm]

/-- The entry method is told from the others by its parameters, if it has any, and else by its name. -/
theorem nodup_signatures {body : List Stmt} {others : List Method}
    (h : List.Forall₂ (fun f m => Method.ofFunction p f = .ok m) p.functions others)
    (hn : (p.functions.map (·.name)).Nodup) :
    ((entryOf p body :: others).map Method.signature).Nodup ↔
      p.main.parameters ≠ [] ∨ entryName ∉ p.functions.map (·.name) := by
  have hothers : (others.map Method.signature).Nodup := by
    rw [signatures_of_functions h]
    exact hn.map fun a b hab => congrArg Prod.fst hab
  have hentry : (entryOf p body).signature ∈ others.map Method.signature ↔
      p.main.parameters = [] ∧ entryName ∈ p.functions.map (·.name) := by
    rw [signatures_of_functions h, List.mem_map]
    simp only [Method.signature, entryOf, Prod.mk.injEq, eq_comm (a := []), List.map_eq_nil_iff]
    constructor
    · intro hmem
      obtain ⟨n, hn, rfl, hnil⟩ := hmem
      exact ⟨hnil, hn⟩
    · intro hmem
      exact ⟨entryName, hmem.2, rfl, hmem.1⟩
  rw [List.map_cons, List.nodup_cons, hentry, not_and_or]
  simp only [hothers, and_true, ne_eq]

/-- When the members of the class of a unit can be told apart. Fields have distinct names, and so have
the methods behind the entry method. The entry method differs from all others exactly if it has
parameters or no subroutine has its name, and its parameters have distinct names exactly if they are
bound to distinct identities. -/
theorem distinct_members (name : String) (u : CompilationUnit) {file : SourceFile}
    (h : (Program.ofSource name u >>= SourceFile.ofCore) = .ok file) :
    ∃ c, file = ⟨[c]⟩ ∧ (c.fields.map (·.name)).Nodup ∧ (c.methods.tail.map (·.name)).Nodup ∧
      ((c.methods.map Method.signature).Nodup ↔
        entryReferences u ≠ [] ∨ entryName ∉ (firsts (·.id) u.subroutines).map (·.name)) ∧
      ((∀ m ∈ c.methods, (m.parameters.map (·.name)).Nodup) ↔
        ((entryReferences u).map (·.referred)).Nodup) := by
  obtain ⟨p, hp, hfile⟩ := bind_eq_ok.mp h
  have hmade := Core.programOf_ofSource hp
  have hwell := Core.wellFormed_ofSource hp
  obtain ⟨c, hc, rfl⟩ := SourceFile.ofCore_eq_ok.mp hfile
  obtain ⟨fields, body, others, hfields, hbody, hothers, rfl⟩ := Class.ofCore_eq_ok.mp hc
  refine ⟨_, rfl, ?_, ?_, ?_, ?_⟩
  · rw [names_of_fields hfields]
    exact hwell.globalNames
  · rw [List.tail_cons, names_of_functions hothers]
    exact hwell.functionNames
  · have hnone : p.main.parameters = [] ↔ entryReferences u = [] := by
      rw [← List.length_eq_zero_iff, ← List.length_eq_zero_iff, hmade.parameters.length_eq]
    rw [nodup_signatures hothers hwell.functionNames, ne_eq, hnone, hmade.names_functions]
  · have hentry : ((entryOf p body).parameters.map (·.name)) = p.main.parameters.map (·.name) := by
      rw [entryOf, List.map_map]
      rfl
    have hrest : ∀ m ∈ others, (m.parameters.map (·.name)).Nodup := by
      intro m hm
      rw [parameters_of_functions hothers m hm]
      exact List.nodup_nil
    have hnames : ((entryReferences u).map (·.referred)).Nodup ↔
        (p.main.parameters.map (·.name)).Nodup :=
      nodup_map_iff (fun r r' x x' hx hx' => hmade.name_parameter_eq_iff hx hx') hmade.parameters
    rw [List.forall_mem_cons, hentry, hnames]
    exact and_iff_left hrest

/-- A unit that calls a subroutine with the name of the entry method, and takes parameters. -/
def callsEntryName (parameters : List (Reference DataId)) : CompilationUnit :=
  { data := [{ id := ⟨1⟩, name := "A", ty := .number 5 0 }]
    subroutines := [{ id := ⟨1⟩, name := "executeProgram" }]
    main := [.execute none ⟨"executeProgram", some ⟨1⟩⟩]
    entry := some { parameters, isEntry := true } }

theorem distinct_members_parameter : ∃ c,
    (Program.ofSource "Test" (callsEntryName [⟨"A", some ⟨1⟩⟩]) >>= SourceFile.ofCore) = .ok ⟨[c]⟩ ∧
    (c.methods.map Method.signature).Nodup ∧
    ∀ m ∈ c.methods, (m.parameters.map (·.name)).Nodup := by
  obtain ⟨c, hfile, -, -, hmethods, hparameters⟩ :=
    distinct_members "Test" (callsEntryName [⟨"A", some ⟨1⟩⟩]) rfl
  exact ⟨c, congrArg _ hfile, hmethods.mpr (.inl (by decide)), hparameters.mpr (by decide)⟩

/- Without a parameter the class has two methods `executeProgram()`, and with one parameter given twice
an entry method with two parameters `A`. -/
theorem clashing_members :
    (∃ c, (Program.ofSource "Test" (callsEntryName []) >>= SourceFile.ofCore) = .ok ⟨[c]⟩ ∧
      ¬ (c.methods.map Method.signature).Nodup) ∧
    ∃ c m, (Program.ofSource "Test" (callsEntryName [⟨"A", some ⟨1⟩⟩, ⟨"B", some ⟨1⟩⟩]) >>=
        SourceFile.ofCore) = .ok ⟨[c]⟩ ∧
      m ∈ c.methods ∧ ¬ (m.parameters.map (·.name)).Nodup := by
  exact ⟨⟨_, rfl, by decide⟩, _, _, rfl, List.mem_cons_self, by decide⟩

end Target

end RpgLowering
